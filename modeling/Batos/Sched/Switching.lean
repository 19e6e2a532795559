import Batos.Sched.Atomicity

/-!
# Two ways to lose the CPU

A task gives up the CPU by `scheduler_yield`, or a timer event takes it away
(`x86_64_preempt_handle_timer`).  The two paths make the same checks in different orders.  The
timer path resolves the continuation of the next task before it looks at its state, and it
tells the scheduler which task it expects; `scheduler_yield` looks at the state first.

In every state in which the current task is running and preemption is enabled they agree: both
switch or neither does, and then to the same task, with the same queues and task states
(`yield_agrees_with_timer`).  What differs is what they note down for the task that goes: the
yield saves its registers and makes this context its continuation, and the timer notes the
interrupt frame and makes that its continuation (`yield_and_timer_differ`).
-/

namespace Batos

open Option (some)

/-! ## Agreement -/

/-- The two states differ in what they hold for the task `c`, and there in its continuation:
the authority, the saved context and the interrupt frame. -/
structure Sched.Alike (c : TaskRef) (y p : Sched) : Prop where
  current : y.current = p.current
  runqueue : y.runqueue = p.runqueue
  waitQueues : y.waitQueues = p.waitQueues
  dispatchCount : y.dispatchCount = p.dispatchCount
  preemptEnabled : y.preemptEnabled = p.preemptEnabled
  others : ∀ t, t ≠ c → y.tasks t = p.tasks t
  outgoing : { y.tasks c with
    resumeAuthority := (p.tasks c).resumeAuthority
    context := (p.tasks c).context
    preemptState := (p.tasks c).preemptState } = p.tasks c

theorem Sched.Alike.state_eq {c : TaskRef} {y p : Sched} (h : Sched.Alike c y p) (t : TaskRef) :
    (y.tasks t).state = (p.tasks t).state := by
  by_cases hne : t = c
  · rw [hne, ← h.outgoing]
  · rw [h.others t hne]

section Agreement

variable {s : Sched} {ready : List TaskRef} {c n : TaskRef}

/-- The rotation does not look at the continuation of the task that goes. -/
theorem Sched.CanPass.alike (h : s.CanPass ready c n) (registers : Context) (frame : Word) :
    Sched.Alike c (s.yielded c n registers) ((s.bindFrame c frame).rotate c n) := by
  have hgone : ((s.bindFrame c frame).rotate c n).tasks c =
      { s.tasks c with
        state := .ready, preemptState := ⟨frame, true⟩, resumeAuthority := .interrupt } := by
    rw [Sched.rotate_outgoing _ h.ne, Sched.bindFrame_self]
  have hyielded : (s.yielded c n registers).tasks c =
      { s.tasks c with state := .ready, resumeAuthority := .context, context := registers } := by
    refine (Sched.setTask_self _ _ _).trans ?_
    rw [Sched.rotate_outgoing _ h.ne]
  refine ⟨rfl, rfl, rfl, rfl, rfl, fun t hne => ?_, ?_⟩
  · have hkept : (s.yielded c n registers).tasks t = (s.rotate c n).tasks t :=
      Function.update_of_ne hne _ _
    rw [hkept]
    by_cases hn : t = n
    · rw [hn, Sched.rotate_next, Sched.rotate_next, Sched.bindFrame_of_ne h.ne]
    · rw [Sched.rotate_of_ne _ hne hn, Sched.rotate_of_ne _ hne hn, Sched.bindFrame_of_ne hne]
  · rw [hyielded, hgone]

/-- What the timer stub enters is what a yield resumes. -/
theorem lapicTimerStub_of_target {frame : Word} {target : ResumeTarget}
    {k : Continuation} {s' : Sched} (htimer : preemptHandleTimer s frame = (0, some target, s'))
    (hresolve : schedulerResolveTarget s n = some target)
    (hcontext : (s'.tasks n).context = (s.tasks n).context)
    (hk : (s.tasks n).continuation = some k) : (lapicTimerStub s frame).1 = k := by
  rw [lapicTimerStub, htimer]
  dsimp only
  rw [if_neg (by decide)]
  rcases schedulerResolveTarget_cases hresolve with ⟨rfl, hcont⟩ | ⟨frame', -, rfl, hcont⟩
  · rw [hk] at hcont
    dsimp only
    rw [hcontext]
    exact (some.inj hcont).symm
  · rw [hk] at hcont
    exact (some.inj hcont).symm

end Agreement

/-- **Yield and timer agree.**  With a current task and preemption enabled, a yield switches
if and only if a timer event does.  If they switch, then to the same task, which goes on with
the same continuation, and the states they lead to differ in nothing but the continuation of
the task that goes. -/
theorem yield_agrees_with_timer (s : Sched) (ready : List TaskRef)
    (h : s.Queued ready) (c : TaskRef) (hcurrent : s.current = some c)
    (henabled : s.preemptEnabled = true) (registers : Context) (frame : Word)
    (hframe : frame ≠ 0) :
    ((schedulerYield s registers).2.current ≠ some c ↔
        (preemptHandleTimer s frame).2.2.current ≠ some c) ∧
      ((schedulerYield s registers).2.current ≠ some c →
        Sched.Alike c (schedulerYield s registers).2 (preemptHandleTimer s frame).2.2 ∧
        (∀ t, ((schedulerYield s registers).2.tasks t).state =
          ((preemptHandleTimer s frame).2.2.tasks t).state) ∧
        ((schedulerYield s registers).2.tasks c).resumeAuthority = .context ∧
        ((preemptHandleTimer s frame).2.2.tasks c).resumeAuthority = .interrupt ∧
        ∃ n target, (schedulerYield s registers).2.current = some n ∧
          schedulerResolveTarget s n = some target ∧
          (preemptHandleTimer s frame).2.1 = some target ∧
          (schedulerYield s registers).1 = .resumes (lapicTimerStub s frame).1) := by
  rcases h.yield_cases registers with
    ⟨code, -, hyield, hno⟩ | ⟨c', n, target, k, hpass, hresolve, hk, hyield⟩
  · rcases h.timer_cases hcurrent henabled hframe with ⟨htimer, -⟩ | ⟨n, target, hpass, hresolve, -⟩
    · rw [hyield, htimer]
      refine ⟨iff_of_false (fun hne => hne hcurrent) fun hne => hne hcurrent, fun hne => ?_⟩
      exact absurd hcurrent hne
    · exact absurd hresolve (hno c n target hpass)
  · obtain rfl : c' = c := some.inj (hpass.current.symm.trans hcurrent)
    rcases h.timer_cases hcurrent henabled hframe with
      ⟨-, hno⟩ | ⟨n', target', hpass', hresolve', htimer⟩
    · exact absurd hresolve (hno n target hpass)
    · obtain rfl : n' = n := some.inj (hpass'.head.symm.trans hpass.head)
      obtain rfl : target' = target := some.inj (hresolve'.symm.trans hresolve)
      have halike := hpass.alike registers frame
      have hcontext : (((s.bindFrame c' frame).rotate c' n').tasks n').context =
          (s.tasks n').context := by
        rw [Sched.rotate_next, Sched.bindFrame_of_ne hpass.ne]
      have hstub := lapicTimerStub_of_target htimer hresolve hcontext hk
      rw [hyield, htimer]
      have hswitched : (some n' : Option TaskRef) ≠ some c' := fun heq => hpass.ne (some.inj heq)
      refine ⟨iff_of_true hswitched hswitched, fun _ =>
        ⟨halike, halike.state_eq, ?_, ?_, n', target', rfl, hresolve, rfl,
          congrArg Control.resumes hstub.symm⟩⟩
      · exact congrArg Task.resumeAuthority (Sched.setTask_self _ _ _)
      · rw [Sched.rotate_outgoing _ hpass.ne, Sched.bindFrame_self]

/-- Two tasks with contexts: the first one runs and the second one waits. -/
def demoPair : Sched :=
  (demoAdmit (schedulerStart (demoAdmit (schedulerInit
    { tasks := fun _ => { resumeAuthority := .context }, preemptEnabled := true })
    1)).2 2).irqRestore true

theorem demoPair_queued : demoPair.Queued [2] :=
  ⟨demoSched_queued.initialized, demoSched_queued.runqueue⟩

theorem yield_agrees_with_timer_demo :
    demoPair.current = some 1 ∧ (demoPair.tasks 1).state = .running ∧
      demoPair.preemptEnabled = true ∧
      (schedulerYield demoPair {}).2.current = some 2 ∧
      Sched.Alike 1 (schedulerYield demoPair {}).2 (preemptHandleTimer demoPair 0x8000).2.2 := by
  have hyields : (schedulerYield demoPair {}).2.current = some 2 := by decide
  refine ⟨by decide, by decide, by decide, hyields, ?_⟩
  refine ((yield_agrees_with_timer demoPair [2] demoPair_queued 1 (by decide) (by decide) {} 0x8000
    (by decide)).2 ?_).1
  rw [hyields]
  decide

/-- The resume authority is not the only difference: the timer has also noted its frame, and the
yield has not. -/
theorem yield_and_timer_differ :
    demoPair.Queued [2] ∧ demoPair.current = some 1 ∧ (demoPair.tasks 1).state = .running ∧
      demoPair.preemptEnabled = true ∧ (schedulerYield demoPair {}).2.current = some 2 ∧
      (preemptHandleTimer demoPair 0x8000).2.2.current = some 2 ∧
      ((schedulerYield demoPair {}).2.tasks 1).preemptState = ⟨0, false⟩ ∧
      ((preemptHandleTimer demoPair 0x8000).2.2.tasks 1).preemptState = ⟨0x8000, true⟩ :=
  ⟨demoPair_queued, by decide, by decide, by decide, by decide, by decide, by decide, by decide⟩

end Batos
