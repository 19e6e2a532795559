import Batos.Sched.Task
import Batos.Lib.RingBuffer

/-!
# Queues of tasks

The state the scheduler works on, and the two kinds of queue it keeps tasks in: the
one runqueue (`runqueue.c`) and any number of wait queues (`wait_queue.c`).  Both are
rings of 256 task pointers; an empty slot holds NULL.  Enqueuing reads the task as
well as the queue — a task must be READY, respectively BLOCKED — and a wait queue also
writes the task's `wait_queue` field, so all of them act on the whole state.

A reference always denotes a task or a queue; the NULL checks of the source have no
counterpart.
-/

namespace Batos

variable {t : TaskRef}

/-- The variables of `runqueue.c`, or a `struct wait_queue`. -/
structure TaskQueue where
  ring : RingBuffer TaskRef taskMaxTasks := .empty
  initialized : Bool := false

/-- The state of the scheduler: all task objects, the queues, the variables of
`scheduler.c` and `preempt.c`, and the interrupt flag of the CPU. -/
structure Sched where
  tasks : TaskRef → Task := fun _ => {}
  runqueue : TaskQueue := {}
  current : Option TaskRef := none
  dispatchCount : Word := 0
  waitQueues : WaitQueueRef → TaskQueue := fun _ => {}
  preemptEnabled : Bool := false
  interruptFlag : Bool := false

namespace Sched

/-- Overwrite a task object. -/
def setTask (s : Sched) (t : TaskRef) (task : Task) : Sched :=
  { s with tasks := Function.update s.tasks t task }

@[simp] theorem setTask_self (s : Sched) (t : TaskRef) (task : Task) :
    (s.setTask t task).tasks t = task :=
  Function.update_self _ _ _

/-- Overwrite a wait queue. -/
def setWaitQueue (s : Sched) (q : WaitQueueRef) (queue : TaskQueue) : Sched :=
  { s with waitQueues := Function.update s.waitQueues q queue }

/-- `task_transition` on a task object; `none` stands for -1. -/
def transition (s : Sched) (t : TaskRef) (newState : TaskState) : Option Sched :=
  (taskTransition (s.tasks t) newState).map (s.setTask t)

/-- `x86_64_irq_save`; the flags it returns are the old `interruptFlag`. -/
def irqSave (s : Sched) : Sched := { s with interruptFlag := false }

/-- `x86_64_irq_restore`. -/
def irqRestore (s : Sched) (flags : Bool) : Sched := { s with interruptFlag := flags }

end Sched

/-! ## What the two kinds of queue share -/

namespace TaskQueue

/-- `runqueue_contains`, `wait_queue_contains`. -/
def contains (queue : TaskQueue) (t : TaskRef) : Bool :=
  queue.initialized && queue.ring.contains t

/-- The checks of `runqueue_enqueue` and `wait_queue_enqueue`. -/
def accepts (queue : TaskQueue) (required : TaskState) (tasks : TaskRef → Task) (t : TaskRef) :
    Bool :=
  queue.initialized && decide ((tasks t).state = required) &&
    decide (queue.ring.count < taskMaxTasks) && !queue.contains t

/-- Store a task at the tail. -/
def push (queue : TaskQueue) (t : TaskRef) : TaskQueue := { queue with ring := queue.ring.push t }

/-- `runqueue_peek`, `wait_queue_peek`. -/
def peek (queue : TaskQueue) : Option TaskRef :=
  if queue.initialized then queue.ring.peek else none

/-- Take the task at the head. -/
def pop (queue : TaskQueue) : Option TaskRef × TaskQueue :=
  if queue.initialized then (queue.ring.pop.1, { queue with ring := queue.ring.pop.2 })
  else (none, queue)

/-- Take a task out of the middle. -/
def remove (queue : TaskQueue) (t : TaskRef) : Option TaskQueue :=
  if queue.initialized then (queue.ring.remove t).map fun ring => { queue with ring := ring }
  else none

/-- `runqueue_count`, `wait_queue_count`. -/
def count (queue : TaskQueue) : ℕ := if queue.initialized then queue.ring.count else 0

/-- The tasks in the queue, first come first. -/
def items (queue : TaskQueue) : List TaskRef := queue.ring.toList

end TaskQueue

/-! ## The runqueue -/

/-- `runqueue_enqueue`. -/
def runqueueEnqueue (s : Sched) (t : TaskRef) : ℤ × Sched :=
  if s.runqueue.accepts .ready s.tasks t then (0, { s with runqueue := s.runqueue.push t })
  else (-1, s)

/-- `runqueue_dequeue`. -/
def runqueueDequeue (s : Sched) : Option TaskRef × Sched :=
  (s.runqueue.pop.1, { s with runqueue := s.runqueue.pop.2 })

/-- `runqueue_remove`. -/
def runqueueRemove (s : Sched) (t : TaskRef) : ℤ × Sched :=
  match s.runqueue.remove t with
  | none => (-1, s)
  | some queue => (0, { s with runqueue := queue })

/-! ## Wait queues -/

/-- `wait_queue_init`. -/
def waitQueueInit (s : Sched) (q : WaitQueueRef) : Sched :=
  s.setWaitQueue q { initialized := true }

/-- `wait_queue_enqueue`: a task has at most one wait queue. -/
def waitQueueEnqueue (s : Sched) (q : WaitQueueRef) (t : TaskRef) : ℤ × Sched :=
  if (s.waitQueues q).accepts .blocked s.tasks t && (s.tasks t).waitQueue.isNone then
    (0, (s.setWaitQueue q ((s.waitQueues q).push t)).setTask t
      { s.tasks t with waitQueue := some q })
  else (-1, s)

/-- The task's `wait_queue` field after it has left the queue. -/
def Task.leaveQueue (task : Task) (q : WaitQueueRef) : Task :=
  if task.waitQueue = some q then { task with waitQueue := none } else task

/-- `wait_queue_dequeue`. -/
def waitQueueDequeue (s : Sched) (q : WaitQueueRef) : Option TaskRef × Sched :=
  match (s.waitQueues q).pop with
  | (none, queue) => (none, s.setWaitQueue q queue)
  | (some t, queue) => (some t, (s.setWaitQueue q queue).setTask t ((s.tasks t).leaveQueue q))

/-- `wait_queue_remove`. -/
def waitQueueRemove (s : Sched) (q : WaitQueueRef) (t : TaskRef) : ℤ × Sched :=
  match (s.waitQueues q).remove t with
  | none => (-1, s)
  | some queue => (0, (s.setWaitQueue q queue).setTask t ((s.tasks t).leaveQueue q))

/-! ## The list a queue stands for -/

namespace TaskQueue

/-- The queue holds exactly the tasks of the list, each once. -/
structure Holds (queue : TaskQueue) (items : List TaskRef) : Prop where
  ring : queue.ring.Represents items
  nodup : items.Nodup
  initialized : items ≠ [] → queue.initialized = true

variable {queue : TaskQueue} {items : List TaskRef}

theorem Holds.items_eq (h : queue.Holds items) : queue.items = items := h.ring.toList_eq

theorem holds_empty (initialized : Bool) : TaskQueue.Holds { initialized := initialized } [] :=
  ⟨RingBuffer.represents_empty, List.nodup_nil, fun h => absurd rfl h⟩

theorem Holds.contains_iff (h : queue.Holds items) (t : TaskRef) :
    queue.contains t = true ↔ t ∈ items := by
  rw [contains, Bool.and_eq_true, h.ring.contains_iff, and_iff_right_iff_imp]
  exact fun ht => h.initialized (List.ne_nil_of_mem ht)

/-- What a queue accepts. -/
theorem Holds.accepts_iff (h : queue.Holds items) (hinit : queue.initialized = true)
    {required : TaskState} {tasks : TaskRef → Task} :
    queue.accepts required tasks t = true ↔
      (tasks t).state = required ∧ items.length < taskMaxTasks ∧ t ∉ items := by
  rw [accepts, hinit, Bool.true_and, Bool.and_eq_true, Bool.and_eq_true, decide_eq_true_eq,
    decide_eq_true_eq, Bool.not_eq_true', ← Bool.not_eq_true, h.contains_iff,
    h.ring.count, and_assoc]

/-- Pushing appends. -/
theorem Holds.push (h : queue.Holds items) (hinit : queue.initialized = true)
    (hroom : items.length < taskMaxTasks) (ht : t ∉ items) :
    (queue.push t).Holds (items ++ [t]) := by
  refine ⟨h.ring.push (by rw [h.ring.count]; exact hroom) t, ?_, fun _ => hinit⟩
  rw [List.nodup_append]
  refine ⟨h.nodup, List.nodup_singleton t, fun u hu v hv => ?_⟩
  rintro rfl
  rw [List.mem_singleton] at hv
  exact ht (hv ▸ hu)

theorem Holds.peek_eq (h : queue.Holds items) : queue.peek = items.head? := by
  unfold peek
  cases items with
  | nil =>
      split
      · exact h.ring.peek_eq
      · rfl
  | cons t items => rw [if_pos (h.initialized (List.cons_ne_nil t items)), h.ring.peek_eq]

/-- Popping takes the head. -/
theorem Holds.pop (h : queue.Holds (t :: items)) :
    ∃ queue' : TaskQueue, queue.pop = (some t, queue') ∧ queue'.Holds items ∧
      queue'.initialized = true := by
  have hinit := h.initialized (List.cons_ne_nil t items)
  obtain ⟨ring, hpop, hring⟩ := h.ring.pop
  refine ⟨{ queue with ring := ring }, ?_, ⟨hring, h.nodup.of_cons, fun _ => hinit⟩, hinit⟩
  rw [TaskQueue.pop, if_pos hinit, hpop]

/-- Removing closes the gap. -/
theorem Holds.remove (h : queue.Holds items) (ht : t ∈ items) :
    ∃ queue' : TaskQueue, queue.remove t = some queue' ∧ queue'.Holds (items.erase t) ∧
      queue'.initialized = true := by
  have hinit := h.initialized (List.ne_nil_of_mem ht)
  obtain ⟨ring, hremove, hring⟩ := h.ring.remove ht
  refine ⟨{ queue with ring := ring }, ?_, ⟨hring, h.nodup.erase t, fun _ => hinit⟩, hinit⟩
  rw [TaskQueue.remove, if_pos hinit, hremove]
  rfl

theorem Holds.remove_of_not_mem (h : queue.Holds items) (ht : t ∉ items) :
    queue.remove t = none := by
  rw [TaskQueue.remove, h.ring.remove_of_not_mem ht]
  exact ite_self none

end TaskQueue

end Batos
