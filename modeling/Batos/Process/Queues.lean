import Batos.Lib.Run
import Batos.Process.Membership
import Batos.Vmm.Run

/-!
# The queues are lists

The kernel keeps tasks in three kinds of queue: the runqueue, the wait queues, and the queue
of ended tasks that wait for the reaper.  Each is its own copy of a ring of 256 slots, written
out in `runqueue.c`, `wait_queue.c` and `lifecycle.c`.  This module follows all of them at
once through any sequence of their operations, in any order and with anything else happening
in between, and says what a caller may take them for: lists without duplicates.

`TaskQueue.list` reads a ring from its head on, and `TaskQueue.Refines` says that the ring is
this list: every slot, the tail and the counter are determined by it, and the readers answer
from it.  `QueueOp.Spec` is the abstract machine, which appends, takes the first or erases.
`queues_refine_lists` connects the two in every state of every run.

A queue that has not been initialised may contain anything.  It counts as the empty list,
which is what its operations see.
-/

namespace Batos

open Function

variable {s : Sched} {checks : Prop}

/-- `runqueue_init`. -/
def runqueueInit (s : Sched) : Sched := { s with runqueue := { initialized := true } }

/-! ## The list of a queue -/

namespace TaskQueue

/-- The tasks in a queue from its head on. -/
def list (queue : TaskQueue) : List TaskRef := if queue.initialized then queue.items else []

/-- The queue is its list: at most 256 tasks, none of them twice, in the slots from the head
on, with NULL in all other slots and the tail behind the last task. -/
structure Refines (queue : TaskQueue) : Prop where
  nodup : queue.list.Nodup
  length_le : queue.list.length ≤ 256
  ring : queue.initialized = true → queue.ring.Represents queue.list
  contains : ∀ t, queue.contains t = true ↔ t ∈ queue.list
  peek : queue.peek = queue.list.head?
  count : queue.count = queue.list.length

/-- A queue in use holds some list. -/
def Kept (queue : TaskQueue) : Prop := queue.initialized = true → queue.Holds queue.items

variable {queue : TaskQueue} {t : TaskRef}

theorem list_of_initialized (hinit : queue.initialized = true) :
    queue.list = queue.items := if_pos hinit

theorem list_of_not_initialized (hinit : queue.initialized = false) : queue.list = [] :=
  if_neg (by simp [hinit])

theorem initialized_of_mem_list (ht : t ∈ queue.list) : queue.initialized = true := by
  by_contra hinit
  rw [list_of_not_initialized (by simpa using hinit)] at ht
  cases ht

theorem kept_of_not_initialized (hinit : queue.initialized = false) : queue.Kept := by
  intro htrue
  rw [hinit] at htrue
  cases htrue

theorem Holds.kept {items : List TaskRef} (h : queue.Holds items) : queue.Kept := by
  intro _
  rw [h.items_eq]
  exact h

/-- A queue right after its initialisation. -/
theorem kept_init : TaskQueue.Kept { initialized := true } := (holds_empty true).kept

theorem Kept.refines (h : queue.Kept) : queue.Refines := by
  cases hinit : queue.initialized with
  | false =>
      have hlist := list_of_not_initialized hinit
      refine ⟨by simp [hlist], by simp [hlist], fun htrue => ?_, fun t => ?_, ?_, ?_⟩
      · rw [hinit] at htrue
        cases htrue
      · simp [contains, hinit, hlist]
      · simp [peek, hinit, hlist]
      · simp [count, hinit, hlist]
  | true =>
      have hholds := h hinit
      rw [← list_of_initialized hinit] at hholds
      refine ⟨hholds.nodup, hholds.ring.bound, fun _ => hholds.ring, hholds.contains_iff,
        hholds.peek_eq, ?_⟩
      rw [count, if_pos hinit, hholds.ring.count]

/-! ### What an operation does to the list -/

/-- A queue accepts a task of the right state that fits and is not in it. -/
theorem Kept.accepts_iff (h : queue.Kept) (required : TaskState)
    (tasks : TaskRef → Task) (t : TaskRef) :
    queue.accepts required tasks t = true ↔ queue.initialized = true ∧ (tasks t).state = required ∧
      queue.list.length < 256 ∧ t ∉ queue.list := by
  by_cases hinit : queue.initialized = true
  · rw [(h hinit).accepts_iff hinit, list_of_initialized hinit, and_iff_right hinit]
  · simp [accepts, hinit]

/-- Pushing appends to the list. -/
theorem Kept.push (h : queue.Kept) (hinit : queue.initialized = true)
    (hroom : queue.list.length < 256) (ht : t ∉ queue.list) :
    (queue.push t).Kept ∧ (queue.push t).list = queue.list ++ [t] := by
  rw [list_of_initialized hinit] at hroom ht ⊢
  have hpush := (h hinit).push hinit hroom ht
  refine ⟨hpush.kept, ?_⟩
  rw [← hpush.items_eq]
  exact list_of_initialized hinit

/-- Popping takes the head of the list. -/
theorem Kept.pop (h : queue.Kept) :
    queue.pop.1 = queue.list.head? ∧ queue.pop.2.Kept ∧ queue.pop.2.list = queue.list.tail := by
  cases hinit : queue.initialized with
  | false =>
      have hpop : queue.pop = (none, queue) := if_neg (by simp [hinit])
      rw [hpop, list_of_not_initialized hinit]
      exact ⟨rfl, h, rfl⟩
  | true =>
      have hholds := h hinit
      rw [list_of_initialized hinit]
      cases hitems : queue.items with
      | nil =>
          rw [hitems] at hholds
          have hpop : queue.ring.pop = (none, queue.ring) := if_pos hholds.ring.count
          rw [TaskQueue.pop, if_pos hinit, hpop]
          exact ⟨rfl, h, (list_of_initialized hinit).trans hitems⟩
      | cons t rest =>
          rw [hitems] at hholds
          obtain ⟨queue', hpop, hrest, hinit'⟩ := hholds.pop
          rw [hpop]
          exact ⟨rfl, hrest.kept, (list_of_initialized hinit').trans hrest.items_eq⟩

/-- Removing a task closes the gap it leaves. -/
theorem Kept.remove (h : queue.Kept) (ht : t ∈ queue.list) :
    ∃ queue' : TaskQueue, queue.remove t = some queue' ∧ queue'.Kept ∧
      queue'.list = queue.list.erase t := by
  have hinit := initialized_of_mem_list ht
  rw [list_of_initialized hinit] at ht ⊢
  obtain ⟨queue', hremove, hholds, hinit'⟩ := (h hinit).remove ht
  exact ⟨queue', hremove, hholds.kept, (list_of_initialized hinit').trans hholds.items_eq⟩

theorem Kept.remove_of_not_mem (h : queue.Kept) (ht : t ∉ queue.list) : queue.remove t = none := by
  by_cases hinit : queue.initialized = true
  · rw [list_of_initialized hinit] at ht
    exact (h hinit).remove_of_not_mem ht
  · exact if_neg hinit

end TaskQueue

/-! ## The operations on the queues -/

/-- The queues of the kernel. -/
inductive QueueRef
  | runqueue
  | wait (q : WaitQueueRef)
  | pending
  deriving DecidableEq

/-- A queue, wherever it is kept. -/
def Kernel.queue (k : Kernel) : QueueRef → TaskQueue
  | .runqueue => k.sched.runqueue
  | .wait q => k.sched.waitQueues q
  | .pending => k.lifecycle

/-- The lists the queues stand for. -/
def Kernel.lists (k : Kernel) (r : QueueRef) : List TaskRef := (k.queue r).list

/-- The operations of `runqueue.c`, `wait_queue.c` and `lifecycle.c`, and anything else that
leaves the queues alone. -/
inductive QueueOp
  | other (k : Kernel)
  | runqueueInit
  | runqueueEnqueue (t : TaskRef)
  | runqueueDequeue
  | runqueueRemove (t : TaskRef)
  | waitQueueInit (q : WaitQueueRef)
  | waitQueueEnqueue (q : WaitQueueRef) (t : TaskRef)
  | waitQueueDequeue (q : WaitQueueRef)
  | waitQueueRemove (q : WaitQueueRef) (t : TaskRef)
  | lifecycleInit
  | publish (t : TaskRef)
  | reap

/-- What an operation returns: a code, or a task pointer that may be NULL. -/
inductive QueueAnswer
  | code (value : ℤ)
  | task (value : Option TaskRef)

/-- The answer of an operation, and the state it leaves. -/
def Kernel.perform (k : Kernel) : QueueOp → QueueAnswer × Kernel
  | .other k' => (.code 0, k')
  | .runqueueInit => (.code 0, { k with sched := runqueueInit k.sched })
  | .runqueueEnqueue t =>
      (.code (runqueueEnqueue k.sched t).1, { k with sched := (runqueueEnqueue k.sched t).2 })
  | .runqueueDequeue =>
      (.task (runqueueDequeue k.sched).1, { k with sched := (runqueueDequeue k.sched).2 })
  | .runqueueRemove t =>
      (.code (runqueueRemove k.sched t).1, { k with sched := (runqueueRemove k.sched t).2 })
  | .waitQueueInit q => (.code 0, { k with sched := waitQueueInit k.sched q })
  | .waitQueueEnqueue q t =>
      (.code (waitQueueEnqueue k.sched q t).1, { k with sched := (waitQueueEnqueue k.sched q t).2 })
  | .waitQueueDequeue q =>
      (.task (waitQueueDequeue k.sched q).1, { k with sched := (waitQueueDequeue k.sched q).2 })
  | .waitQueueRemove q t =>
      (.code (waitQueueRemove k.sched q t).1, { k with sched := (waitQueueRemove k.sched q t).2 })
  | .lifecycleInit => (.code 0, lifecycleInit k)
  | .publish t =>
      (.code (lifecyclePublishTerminatedTask k t).1, (lifecyclePublishTerminatedTask k t).2)
  | .reap => (.code (lifecycleReapOne k).1, (lifecycleReapOne k).2)

/-- All that ever happens to the queues. -/
def queueSystem : TransitionSystem Kernel QueueOp where
  enabled := fun k op =>
    match op with
    | .other k' => k'.queue = k.queue
    | _ => True
  step := fun k op => (k.perform op).2

/-! ## The abstract machine -/

namespace Kernel

variable (k : Kernel) (r : QueueRef) (t : TaskRef) (result : QueueAnswer × Kernel)

/-- A call that succeeds exactly when its checks pass, and then leaves this list in the queue;
otherwise it changes nothing. -/
def Replaces (checks : Prop) (list : List TaskRef) : Prop :=
  (checks → result.1 = .code 0 ∧ result.2.lists = update k.lists r list) ∧
    (¬ checks → (∃ code, code ≠ 0 ∧ result.1 = .code code) ∧ result.2 = k)

/-- The task is appended, if the queue and the checks of the task allow it. -/
def Appends (checks : Prop) : Prop :=
  k.Replaces r result
    ((k.queue r).initialized = true ∧ checks ∧ (k.lists r).length < 256 ∧ t ∉ k.lists r)
    (k.lists r ++ [t])

/-- The first task is taken, if there is one. -/
def Takes : Prop :=
  result.1 = .task (k.lists r).head? ∧ result.2.lists = update k.lists r (k.lists r).tail

/-- The task is deleted, if it is there, and the others stay in order. -/
def Erases : Prop := k.Replaces r result (t ∈ k.lists r) ((k.lists r).erase t)

end Kernel

/-- The operations on lists. -/
def QueueOp.Spec (k : Kernel) (result : QueueAnswer × Kernel) : QueueOp → Prop
  | .other _ => result.2.lists = k.lists
  | .runqueueInit => result.2.lists = update k.lists .runqueue []
  | .runqueueEnqueue t => k.Appends .runqueue t result ((k.task t).state = .ready)
  | .runqueueDequeue => k.Takes .runqueue result
  | .runqueueRemove t => k.Erases .runqueue t result
  | .waitQueueInit q => result.2.lists = update k.lists (.wait q) []
  | .waitQueueEnqueue q t =>
      k.Appends (.wait q) t result ((k.task t).state = .blocked ∧ (k.task t).waitQueue = none)
  | .waitQueueDequeue q => k.Takes (.wait q) result
  | .waitQueueRemove q t => k.Erases (.wait q) t result
  | .lifecycleInit => result.2.lists = update k.lists .pending []
  | .publish t =>
      k.Appends .pending t result ((k.task t).state = .terminated ∧
        (k.task t).lifecycleMode = .managed ∧ taskRegistryContains k t = true)
  | .reap =>
      -- whether the first task can be reclaimed is not the business of the queue
      (result.1 = .code 0 ∧ k.lists .pending ≠ [] ∧
          result.2.lists = update k.lists .pending (k.lists .pending).tail) ∨
        (∃ code, code ≠ 0 ∧ result.1 = .code code) ∧ result.2.lists = k.lists

/-! ## Where the queues are kept -/

section Queue

variable {k k' : Kernel} {queue : TaskQueue}

theorem Kernel.queue_setRunqueue (hrunqueue : s.runqueue = queue)
    (hwaiting : s.waitQueues = k.sched.waitQueues) :
    Kernel.queue { k with sched := s } = update k.queue .runqueue queue := by
  funext r
  cases r with
  | runqueue => exact hrunqueue
  | wait q => exact congrFun hwaiting q
  | pending => rfl

theorem Kernel.queue_setWaitQueue {q : WaitQueueRef} (hrunqueue : s.runqueue = k.sched.runqueue)
    (hwaiting : s.waitQueues = update k.sched.waitQueues q queue) :
    Kernel.queue { k with sched := s } = update k.queue (.wait q) queue := by
  funext r
  cases r with
  | runqueue => exact hrunqueue
  | wait q' =>
      refine (congrFun hwaiting q').trans ?_
      rw [update_apply, update_apply]
      exact if_congr (by simp) rfl rfl
  | pending => rfl

theorem Kernel.queue_setPending (hsched : k'.sched.runqueue = k.sched.runqueue)
    (hwaiting : k'.sched.waitQueues = k.sched.waitQueues) (hpending : k'.lifecycle = queue) :
    k'.queue = update k.queue .pending queue := by
  funext r
  cases r with
  | runqueue => exact hsched
  | wait q => exact congrFun hwaiting q
  | pending => exact hpending

/-- What the reaper does on the way does not touch the queues. -/
theorem queue_processDetachTask (k : Kernel) (p : ProcessRef) (t : TaskRef) :
    (processDetachTask k p t).2.queue = k.queue := by
  unfold processDetachTask
  split
  · rfl
  · split
    · rfl
    · split_ifs <;> rfl

theorem queue_taskRegistryUnregister (k : Kernel) (t : TaskRef) :
    (taskRegistryUnregister k t).2.queue = k.queue := by
  unfold taskRegistryUnregister
  split
  · rfl
  · split
    · rfl
    · split_ifs <;> rfl

/-- Destroying a task touches no queue. -/
theorem queue_taskDestroy (k : Kernel) (t : TaskRef) : (taskDestroy k t).2.queue = k.queue := by
  unfold taskDestroy
  split_ifs
  · rfl
  · rfl
  · rfl
  · rfl
  · rfl
  · exact Call.andThen_rule (fun k' => k'.queue = k.queue) (fun call => call.2.queue = k.queue) rfl
      (fun _ h => h) fun _ h => h

end Queue

/-- The reaper takes the first task out of its queue, or leaves all queues as they are. -/
def Kernel.ReapsQueues (k : Kernel) (call : Call) : Prop :=
  (call.1 = 0 ∧ call.2.queue = update k.queue .pending k.lifecycle.pop.2) ∨
    call.1 ≠ 0 ∧ call.2.queue = k.queue

theorem reclaimHead_queues (k : Kernel) : k.ReapsQueues (reclaimHead k) := by
  have hfail : ∀ (code : ℤ) {k' : Kernel}, code ≠ 0 → k'.queue = k.queue →
    k.ReapsQueues (code, k') :=
    fun _ _ hcode hsame => .inr ⟨hcode, hsame⟩
  rcases reclaimHead_refuses_or_releases k with ⟨code, hcode, heq⟩ | ⟨t, heq⟩ <;> rw [heq]
  · exact hfail code hcode.ne rfl
  -- the three owners, each of which may refuse
  refine Call.andThen_rule (fun k' => k'.queue = k.queue) k.ReapsQueues ?_
    (fun _ h => hfail (-10) (by decide) h) fun k₁ h₁ => ?_
  · unfold detachOwner
    cases (k.task t).process with
    | none => rfl
    | some p => exact queue_processDetachTask k p t
  refine Call.andThen_rule (fun k' => k'.queue = k.queue) k.ReapsQueues
    ((queue_taskRegistryUnregister k₁ t).trans h₁) (fun _ h => hfail (-11) (by decide) h)
    fun k₂ h₂ => ?_
  refine Call.andThen_rule (fun k' => k'.queue = k.queue) k.ReapsQueues
    ((queue_taskDestroy k₂ t).trans h₂) (fun _ h => hfail (-12) (by decide) h) fun k₃ h₃ => ?_
  have hpending : k₃.lifecycle = k.lifecycle := congrFun h₃ .pending
  refine .inl ⟨rfl, Kernel.queue_setPending (congrFun h₃ .runqueue) ?_ (by rw [hpending])⟩
  exact funext fun q => congrFun h₃ (.wait q)

/-- `lifecycle_reap_one` on the queues. -/
theorem lifecycleReapOne_queues (k : Kernel) :
    k.ReapsQueues (lifecycleReapOne k) ∧
      ((lifecycleReapOne k).1 = 0 → k.lifecycle.initialized = true ∧
      k.lifecycle.ring.count ≠ 0) := by
  unfold lifecycleReapOne
  split_ifs with hinit hcount
  · exact ⟨.inr ⟨show (-1 : ℤ) ≠ 0 by decide, rfl⟩, nofun⟩
  · exact ⟨.inr ⟨show (1 : ℤ) ≠ 0 by decide, rfl⟩, nofun⟩
  exact ⟨reclaimHead_queues { k with sched := k.sched.irqSave }, fun _ =>
    ⟨by simpa using hinit, hcount⟩⟩

/-! ## One operation -/

/-- All queues in use hold lists. -/
def Kernel.QueuesKept (k : Kernel) : Prop := ∀ r, (k.queue r).Kept

namespace Kernel.QueuesKept

variable {k k' : Kernel} {r : QueueRef} {t : TaskRef} {result : QueueAnswer × Kernel}

/-- One queue has changed. -/
theorem update (h : k.QueuesKept) {queue : TaskQueue} (hqueue : queue.Kept)
    (heq : k'.queue = update k.queue r queue) :
    k'.lists = update k.lists r queue.list ∧ k'.QueuesKept := by
  refine ⟨funext fun r' => ?_, ?_⟩
  · unfold Kernel.lists
    rw [heq]
    exact apply_update (fun _ queue => TaskQueue.list queue) k.queue r queue r'
  · unfold Kernel.QueuesKept
    rw [heq]
    exact (forall_update_iff k.queue fun _ queue => queue.Kept).mpr ⟨hqueue, fun r' _ => h r'⟩

/-- A call that changes one list, or is refused. -/
theorem replaces {list : List TaskRef} (h : k.QueuesKept)
    (hdone : checks → ∃ k', result = (.code 0, k') ∧ k'.lists = Function.update k.lists r list ∧
      k'.QueuesKept)
    (hrefused : ¬ checks → ∃ code, code ≠ 0 ∧ result = (.code code, k)) :
    k.Replaces r result checks list ∧ result.2.QueuesKept := by
  by_cases hchecks : checks
  · obtain ⟨k', rfl, hlists, hkept⟩ := hdone hchecks
    exact ⟨⟨fun _ => ⟨rfl, hlists⟩, fun hnot => absurd hchecks hnot⟩, hkept⟩
  · obtain ⟨code, hcode, rfl⟩ := hrefused hchecks
    exact ⟨⟨fun hpass => absurd hpass hchecks, fun _ => ⟨⟨code, hcode, rfl⟩, rfl⟩⟩, h⟩

/-- A call that appends to one list, or is refused. -/
theorem appends (h : k.QueuesKept)
    (hdone : (k.queue r).initialized = true ∧ checks ∧ (k.lists r).length < 256 ∧ t ∉ k.lists r →
      ∃ k', result = (.code 0, k') ∧ k'.queue = Function.update k.queue r ((k.queue r).push t))
    (hrefused : ¬ ((k.queue r).initialized = true ∧ checks ∧ (k.lists r).length < 256 ∧
      t ∉ k.lists r) → ∃ code, code ≠ 0 ∧ result = (.code code, k)) :
    k.Appends r t result checks ∧ result.2.QueuesKept := by
  refine h.replaces (fun hchecks => ?_) hrefused
  obtain ⟨k', heq, hqueue⟩ := hdone hchecks
  obtain ⟨hkept, hlist⟩ := (h r).push hchecks.1 hchecks.2.2.1 hchecks.2.2.2
  rw [show k.lists r ++ [t] = _ from hlist.symm]
  exact ⟨k', heq, h.update hkept hqueue⟩

/-- A call that takes the head of one list. -/
theorem takes (h : k.QueuesKept) (hanswer : result.1 = .task (k.queue r).pop.1)
    (hqueue : result.2.queue = Function.update k.queue r (k.queue r).pop.2) :
    k.Takes r result ∧ result.2.QueuesKept := by
  obtain ⟨hfirst, hkept, hrest⟩ := (h r).pop
  obtain ⟨hlists, hkept⟩ := h.update hkept hqueue
  rw [hrest] at hlists
  exact ⟨⟨hanswer.trans (congrArg QueueAnswer.task hfirst), hlists⟩, hkept⟩

theorem erases (h : k.QueuesKept)
    (hdone : ∀ queue, (k.queue r).remove t = some queue →
      ∃ k', result = (.code 0, k') ∧ k'.queue = Function.update k.queue r queue)
    (hrefused : (k.queue r).remove t = none → result = (.code (-1), k)) :
    k.Erases r t result ∧ result.2.QueuesKept := by
  refine h.replaces (fun ht => ?_) fun ht =>
    ⟨-1, by decide, hrefused ((h r).remove_of_not_mem ht)⟩
  obtain ⟨queue, hremove, hkept, hlist⟩ := (h r).remove ht
  obtain ⟨k', heq, hqueue⟩ := hdone queue hremove
  rw [show (k.lists r).erase t = _ from hlist.symm]
  exact ⟨k', heq, h.update hkept hqueue⟩

/-- Publication checks and appends. -/
theorem publish (h : k.QueuesKept) (t : TaskRef) :
    QueueOp.Spec k (k.perform (.publish t)) (.publish t) ∧
      (k.perform (.publish t)).2.QueuesKept := by
  have hrefines := (h .pending).refines
  have heq : k.lifecycle.initialized = true → lifecyclePublishTerminatedTask k t =
      if (k.task t).state ≠ .terminated then (-2, k)
      else if (k.task t).lifecycleMode ≠ .managed then (-3, k)
      else if 256 ≤ (k.lists .pending).length then (-4, k)
      else if t ∈ k.lists .pending then (-5, k)
      else if taskRegistryContains k t = false then (-6, k)
      else (0, { k with lifecycle := k.lifecycle.push t }) := by
    intro hinit
    have hcount : k.lifecycle.ring.count = (k.lists .pending).length := (hrefines.ring hinit).count
    have hcontains : k.lifecycle.contains t = true ↔ t ∈ k.lists .pending := hrefines.contains t
    rw [lifecyclePublishTerminatedTask, if_neg (by simp [hinit]), hcount]
    simp only [hcontains]
  refine h.appends (fun hchecks => ?_) fun hchecks => ?_
  · obtain ⟨hinit, ⟨hstate, hmode, hregistered⟩, hroom, hnew⟩ := hchecks
    refine ⟨{ k with lifecycle := k.lifecycle.push t }, ?_, Kernel.queue_setPending rfl rfl rfl⟩
    rw [Kernel.perform, heq hinit, if_neg (not_not.mpr hstate), if_neg (not_not.mpr hmode),
      if_neg (Nat.not_le.mpr hroom), if_neg hnew, if_neg (by simp [hregistered])]
  · by_cases hinit : k.lifecycle.initialized = true
    swap
    · exact ⟨-1, by decide, by simp [Kernel.perform, lifecyclePublishTerminatedTask, hinit]⟩
    rw [Kernel.perform, heq hinit]
    split_ifs with hstate hmode hfull hmem hregistered
    · exact ⟨-2, by decide, rfl⟩
    · exact ⟨-3, by decide, rfl⟩
    · exact ⟨-4, by decide, rfl⟩
    · exact ⟨-5, by decide, rfl⟩
    · exact ⟨-6, by decide, rfl⟩
    · refine absurd ⟨hinit, ⟨not_not.mp hstate, not_not.mp hmode, by simpa using hregistered⟩,
        Nat.not_le.mp hfull, hmem⟩ hchecks

/-- **One operation on the queues** is the operation on their lists, and leaves lists. -/
theorem step (h : k.QueuesKept) (op : QueueOp) (henabled : queueSystem.enabled k op) :
    op.Spec k (k.perform op) ∧ (k.perform op).2.QueuesKept := by
  cases op with
  | other k' =>
      have hsame : k'.queue = k.queue := henabled
      refine ⟨funext fun r => congrArg TaskQueue.list (congrFun hsame r), fun r => ?_⟩
      rw [show (k.perform (.other k')).2.queue = _ from hsame]
      exact h r
  | runqueueInit => exact h.update TaskQueue.kept_init (Kernel.queue_setRunqueue rfl rfl)
  | runqueueEnqueue t =>
      have hiff : k.sched.runqueue.accepts .ready k.sched.tasks t = true ↔ _ :=
        (h .runqueue).accepts_iff .ready k.sched.tasks t
      refine h.appends (fun hchecks => ?_) fun hchecks => ?_
      · refine ⟨{ k with sched := { k.sched with runqueue := k.sched.runqueue.push t } }, ?_,
          Kernel.queue_setRunqueue rfl rfl⟩
        rw [Kernel.perform, runqueueEnqueue, if_pos (hiff.mpr hchecks)]
      · refine ⟨-1, by decide, ?_⟩
        rw [Kernel.perform, runqueueEnqueue, if_neg fun haccepts => hchecks (hiff.mp haccepts)]
  | runqueueDequeue => exact h.takes rfl (Kernel.queue_setRunqueue rfl rfl)
  | runqueueRemove t =>
      refine h.erases (fun queue hremove => ?_) fun hremove => ?_
      · refine ⟨{ k with sched := { k.sched with runqueue := queue } }, ?_,
          Kernel.queue_setRunqueue rfl rfl⟩
        rw [Kernel.perform, runqueueRemove, show k.sched.runqueue.remove t = _ from hremove]
      · rw [Kernel.perform, runqueueRemove, show k.sched.runqueue.remove t = _ from hremove]
  | waitQueueInit q => exact h.update TaskQueue.kept_init (Kernel.queue_setWaitQueue rfl rfl)
  | waitQueueEnqueue q t =>
      have hiff := (h (.wait q)).accepts_iff .blocked k.sched.tasks t
      refine h.appends (fun hchecks => ?_) fun hchecks => ?_
      · obtain ⟨hinit, ⟨hstate, hfree⟩, hroom⟩ := hchecks
        have haccepts : (k.sched.waitQueues q).accepts .blocked k.sched.tasks t = true :=
          hiff.mpr ⟨hinit, hstate, hroom⟩
        set joined := (k.sched.setWaitQueue q ((k.sched.waitQueues q).push t)).setTask t
          { k.sched.tasks t with waitQueue := some q }
        refine ⟨{ k with sched := joined }, ?_, Kernel.queue_setWaitQueue rfl rfl⟩
        rw [Kernel.perform, waitQueueEnqueue, if_pos (by simp [haccepts, hfree])]
      · refine ⟨-1, by decide, ?_⟩
        rw [Kernel.perform, waitQueueEnqueue, if_neg fun haccepts => hchecks ?_]
        rw [Bool.and_eq_true, Option.isNone_iff_eq_none] at haccepts
        obtain ⟨hinit, hstate, hroom⟩ := hiff.mp haccepts.1
        exact ⟨hinit, ⟨hstate, haccepts.2⟩, hroom⟩
  | waitQueueDequeue q =>
      have heq : (waitQueueDequeue k.sched q).1 = (k.sched.waitQueues q).pop.1 ∧
          (waitQueueDequeue k.sched q).2.runqueue = k.sched.runqueue ∧
          (waitQueueDequeue k.sched q).2.waitQueues =
            Function.update k.sched.waitQueues q (k.sched.waitQueues q).pop.2 := by
        unfold waitQueueDequeue
        cases (k.sched.waitQueues q).pop with
        | mk first queue => cases first <;> exact ⟨rfl, rfl, rfl⟩
      exact h.takes (congrArg QueueAnswer.task heq.1) (Kernel.queue_setWaitQueue heq.2.1 heq.2.2)
  | waitQueueRemove q t =>
      refine h.erases (fun queue hremove => ?_) fun hremove => ?_
      · set left := (k.sched.setWaitQueue q queue).setTask t ((k.sched.tasks t).leaveQueue q)
        refine ⟨{ k with sched := left }, ?_, Kernel.queue_setWaitQueue rfl rfl⟩
        rw [Kernel.perform, waitQueueRemove, show (k.sched.waitQueues q).remove t = _ from hremove]
      · rw [Kernel.perform, waitQueueRemove, show (k.sched.waitQueues q).remove t = _ from hremove]
  | lifecycleInit => exact h.update TaskQueue.kept_init (Kernel.queue_setPending rfl rfl rfl)
  | publish t => exact h.publish t
  | reap =>
      obtain ⟨⟨hcode, hqueue⟩ | ⟨hcode, hqueue⟩, hused⟩ := lifecycleReapOne_queues k
      · obtain ⟨hinit, hcount⟩ := hused hcode
        obtain ⟨-, hkept, hrest⟩ := (h .pending).pop
        obtain ⟨hlists, hkept⟩ := h.update hkept hqueue
        rw [hrest] at hlists
        refine ⟨Or.inl ⟨congrArg QueueAnswer.code hcode, fun hnil => hcount ?_, hlists⟩, hkept⟩
        exact ((h .pending).refines.ring hinit).count.trans (congrArg List.length hnil)
      · refine ⟨Or.inr ⟨⟨_, hcode, rfl⟩, funext fun r => congrArg TaskQueue.list
          (congrFun hqueue r)⟩, fun r => ?_⟩
        rw [show (k.perform .reap).2.queue = _ from hqueue]
        exact h r

end Kernel.QueuesKept

/-! ## All runs -/

/-- **The ring buffers refine lists.**  From a state in which no queue is initialised, whatever
its slots contain, through any sequence of operations: wherever their heads are and however
full they are, the queues are lists, and each operation is the operation on these lists. -/
theorem queues_refine_lists {k₀ k : Kernel} (h₀ : ∀ r, (k₀.queue r).initialized = false)
    (hk : queueSystem.Reachable k₀ k) :
    (∀ r, (k.queue r).Refines) ∧ ∀ op, queueSystem.enabled k op → op.Spec k (k.perform op) := by
  have hkept : k.QueuesKept :=
    hk.induction Kernel.QueuesKept (fun k op h henabled => (h.step op henabled).2) fun r =>
      TaskQueue.kept_of_not_initialized (h₀ r)
  exact ⟨fun r => (hkept r).refines, fun op henabled => (hkept.step op henabled).1⟩

/-- A kernel before its initialisation, with tasks that are READY. -/
def demoUnqueued : Kernel :=
  { vmm := demoBoot.start.vmm, sched := { tasks := fun _ => { state := .ready } } }

/-- Two tasks enter the runqueue, and the first leaves it again. -/
def demoQueueOps : List QueueOp :=
  [.runqueueInit, .runqueueEnqueue 3, .runqueueEnqueue 7, .runqueueRemove 3]

theorem queues_refine_lists_demo :
    (queueSystem.run demoUnqueued demoQueueOps).lists .runqueue = [7] ∧
      ∀ r, ((queueSystem.run demoUnqueued demoQueueOps).queue r).Refines := by
  refine ⟨by decide +kernel, (queues_refine_lists (fun r => ?_)
    ⟨demoQueueOps, ⟨trivial, trivial, trivial, trivial, trivial⟩, rfl⟩).1⟩
  cases r <;> rfl

end Batos
