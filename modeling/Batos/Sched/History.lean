import Batos.Sched.Handoff

/-!
# The history of continuations

A log of everything that creates, consumes or invalidates the continuation of a task:
its construction, the registers it saved when it gave the CPU up, the frame of the timer
event it lost the CPU to, and each time it went on.  The task objects only keep the
latest of these, and not even that is visible from the outside: `preempt_state.valid` is
never cleared, and `resume_authority` still says INTERRUPT while the task is running on
after a timer event.

`latest` is the specification: the continuation that the last event of a task left
pending, if it left one.  A log is `Faithful` when each dispatch went on with exactly
that.
-/

namespace Batos

open List

variable {t : TaskRef} {log : List SchedEvent} {event : SchedEvent} {tasks : TaskRef → Task}

/-- Something that happens to the continuation of a task. -/
inductive SchedEvent
  /-- The task is constructed, with its first context. -/
  | created (t : TaskRef) (context : Context)
  /-- `scheduler_start` makes the task current. -/
  | started (t : TaskRef)
  /-- The task gives the CPU up and its registers are saved. -/
  | saved (t : TaskRef) (context : Context)
  /-- The task loses the CPU to a timer event. -/
  | preempted (t : TaskRef) (frame : Word)
  /-- A timer event returns to the task it interrupted. -/
  | resumed (t : TaskRef) (frame : Word)
  /-- The task ends. -/
  | ended (t : TaskRef)
  /-- The task becomes current and the CPU goes on with the continuation. -/
  | dispatched (t : TaskRef) (continuation : Continuation)
  deriving DecidableEq

namespace SchedEvent

/-- The task the event is about. -/
def task : SchedEvent → TaskRef
  | created t _ | started t | saved t _ | preempted t _ | resumed t _ | ended t
  | dispatched t _ => t

/-- The continuation the event leaves pending. -/
def leaves : SchedEvent → Option Continuation
  | created _ context => some (.context context)
  | saved _ context => some (.context context)
  | preempted _ frame => some (.interrupt frame)
  | started _ | resumed _ _ | ended _ | dispatched _ _ => none

end SchedEvent

/-- The last event of a task. -/
def lastEvent (t : TaskRef) (log : List SchedEvent) : Option SchedEvent :=
  (log.filter fun event => decide (event.task = t)).getLast?

/-- The continuation a task has pending. -/
def latest (t : TaskRef) (log : List SchedEvent) : Option Continuation :=
  (lastEvent t log).bind SchedEvent.leaves

theorem lastEvent_concat (t : TaskRef) (log : List SchedEvent) (event : SchedEvent) :
    lastEvent t (log ++ [event]) = if event.task = t then some event else lastEvent t log := by
  unfold lastEvent
  rw [filter_append]
  by_cases h : event.task = t
  · rw [if_pos h, filter_cons_of_pos (by simpa using h), filter_nil,
      List.getLast?_concat]
  · rw [if_neg h, filter_cons_of_neg (by simpa using h), filter_nil,
      append_nil]

theorem task_of_lastEvent (h : lastEvent t log = some event) : event.task = t := by
  have hmem := List.mem_of_getLast? h
  exact of_decide_eq_true (mem_filter.mp hmem).2

theorem latest_concat_self (log : List SchedEvent) (event : SchedEvent) :
    latest event.task (log ++ [event]) = event.leaves := by
  rw [latest, lastEvent_concat, if_pos rfl, Option.bind_some]

theorem latest_concat_of_ne (log : List SchedEvent) (h : event.task ≠ t) :
    latest t (log ++ [event]) = latest t log := by
  rw [latest, lastEvent_concat, if_neg h, latest]

/-- Each dispatch went on with what was pending. -/
def Faithful (log : List SchedEvent) : Prop :=
  ∀ pre t k post, log = pre ++ .dispatched t k :: post → latest t pre = some k

theorem faithful_nil : Faithful [] := by
  intro pre t k post h
  exact absurd h.symm (by simp)

/-- A log stays faithful when the next event is no dispatch, or a dispatch of what is
pending. -/
theorem Faithful.concat (h : Faithful log)
    (hevent : ∀ t k, event = .dispatched t k → latest t log = some k) :
    Faithful (log ++ [event]) := by
  intro pre t k post heq
  rcases eq_nil_or_concat post with rfl | ⟨post, last, rfl⟩
  · obtain ⟨hpre, hlast⟩ := append_inj' heq rfl
    rw [← hpre]
    exact hevent t k (List.singleton_inj.mp hlast)
  · rw [concat_eq_append, ← cons_append, ← append_assoc] at heq
    exact h pre t k post (append_inj' heq rfl).1

/-! ## The log and the task objects -/

/-- States in which a task waits for the CPU. -/
def TaskState.suspended : TaskState → Bool
  | .ready | .blocked => true
  | _ => false

/-- The task objects of all suspended tasks hold what the log says is pending. -/
def Current (tasks : TaskRef → Task) (log : List SchedEvent) : Prop :=
  ∀ t, (tasks t).state.suspended = true → latest t log = (tasks t).continuation

/-- One event, and the task it is about overwritten accordingly. -/
theorem Current.concat (h : Current tasks log) (event : SchedEvent) (task : Task)
    (htask : task.state.suspended = true → event.leaves = task.continuation) :
    Current (Function.update tasks event.task task) (log ++ [event]) := by
  refine (Function.forall_update_iff tasks fun t x => x.state.suspended = true →
    latest t (log ++ [event]) = x.continuation).mpr ⟨fun hs => ?_, fun t ht hs => ?_⟩
  · rw [latest_concat_self]
    exact htask hs
  · rw [latest_concat_of_ne log ht.symm]
    exact h t hs

/-- A task overwritten without an event. -/
theorem Current.update (h : Current tasks log) (t : TaskRef) (task : Task)
    (htask : task.state.suspended = true → latest t log = task.continuation) :
    Current (Function.update tasks t task) log :=
  (Function.forall_update_iff tasks fun t x => x.state.suspended = true →
    latest t log = x.continuation).mpr ⟨htask, fun u _ => h u⟩

/-- **A handoff uses the pending continuation of the next task**, and leaves the one the
event says pending for the task that had the CPU. -/
theorem Handoff.history {s s' : Sched} {c n : TaskRef} {left : Task} {k : Continuation}
    (h : Handoff s c n left k s') (hcurrent : Current s.tasks log) (hfaithful : Faithful log)
    (htask : event.task = c) (hnot : ∀ t k, event ≠ .dispatched t k)
    (hleft : left.state.suspended = true → event.leaves = left.continuation) :
    Current s'.tasks (log ++ [event] ++ [.dispatched n k]) ∧
      Faithful (log ++ [event] ++ [.dispatched n k]) := by
  subst htask
  have hpending : latest n (log ++ [event]) = some k := by
    rw [latest_concat_of_ne log h.distinct.symm, hcurrent n (by rw [h.ready]; rfl), h.resumed]
  constructor
  · have hleave := hcurrent.concat event left hleft
    have henter := hleave.concat (.dispatched n k) { s.tasks n with state := .running } nofun
    rw [SchedEvent.task, Function.update_comm h.distinct.symm] at henter
    rw [h.tasks]
    exact henter
  · refine (hfaithful.concat fun t k heq => absurd heq (hnot t k)).concat ?_
    rintro t k' heq
    cases heq
    exact hpending

end Batos
