import Batos.Process.Ownership
import Batos.Sched.History
import Batos.Sched.Switching

/-!
# The scheduler in any state

What the operations of the scheduler do to the tasks when nothing is known but that the
runqueue is in order.  Tasks may have been given to constructors while they were queued or
running, or stranded without the CPU; then `Sched.Inv` is lost, and with it most of what the
specifications of `Sched.Handoff` say.

Two things are not lost.  The scheduler never touches what a task is, only where it is
(`Task.identity`), and it leaves the runqueue in order, because enqueuing looks whether the
task is there already.  And a task other than the current one that waits for the CPU after
the operation waited for it before with the same continuation, or was RUNNING and has been
left with a continuation of the kind the operation leaves: its registers, or in the case of
the timer an interrupt frame (`Sched.Passes`).  A task that has not been built yet, or has
ended, is not brought to life.
-/

namespace Batos

open Function

variable {task : Task} {authority : ResumeAuthority} {s₀ : Sched}

/-- Not yet built, or ended. -/
def TaskState.dormant : TaskState → Bool
  | .new | .terminated => true
  | _ => false

/-- A step of the scheduler that leaves continuations of the given kind. -/
structure Sched.Passes (authority : ResumeAuthority) (s s' : Sched) : Prop where
  queued : ∃ ready, s'.Queued ready
  identity : ∀ t, (s'.tasks t).identity = (s.tasks t).identity
  suspended : ∀ t, s'.current ≠ some t → (s'.tasks t).state.suspended = true →
    (s.current ≠ some t ∧ (s.tasks t).state.suspended = true ∧
        (s'.tasks t).resumeAuthority = (s.tasks t).resumeAuthority) ∨
      ((s.tasks t).state = .running ∧ (s'.tasks t).resumeAuthority = authority)
  dormant : ∀ t, (s.tasks t).state.dormant = true → (s'.tasks t).state.dormant = true

namespace Sched.Passes

variable {authority : ResumeAuthority} {s s' : Sched} {ready : List TaskRef}

/-- No task changes. -/
theorem of_tasks_eq (hqueued : s'.Queued ready) (htasks : s'.tasks = s.tasks)
    (hcurrent : s'.current = s.current) : s.Passes authority s' := by
  refine ⟨⟨ready, hqueued⟩, fun t => by rw [htasks], fun t hnot hsuspended => .inl ?_,
    fun t hdormant => by rw [htasks]; exact hdormant⟩
  rw [htasks] at hsuspended ⊢
  rw [hcurrent] at hnot
  exact ⟨hnot, hsuspended, rfl⟩

theorem refl (h : s.Queued ready) : s.Passes authority s := of_tasks_eq h rfl rfl

/-- One task changes its place, and the CPU stays where it is. -/
theorem of_update {t : TaskRef} (hqueued : s'.Queued ready)
    (htasks : s'.tasks = update s.tasks t task) (hcurrent : s'.current = s.current)
    (hidentity : task.identity = (s.tasks t).identity)
    (hsuspended : s.current ≠ some t → task.state.suspended = true → ((s.tasks t).state.suspended =
      true ∧ task.resumeAuthority = (s.tasks t).resumeAuthority) ∨
      ((s.tasks t).state = .running ∧ task.resumeAuthority = authority))
    (hdormant : (s.tasks t).state.dormant = true → task.state.dormant = true) :
    s.Passes authority s' := by
  refine ⟨⟨ready, hqueued⟩, ?_, ?_, ?_⟩
  · rw [htasks]
    exact (forall_update_iff s.tasks fun u x => x.identity = (s.tasks u).identity).mpr
      ⟨hidentity, fun _ _ => rfl⟩
  · rw [htasks, hcurrent]
    refine (forall_update_iff s.tasks fun u x => s.current ≠ some u →
      x.state.suspended = true → (s.current ≠ some u ∧ (s.tasks u).state.suspended = true ∧
        x.resumeAuthority = (s.tasks u).resumeAuthority) ∨
      ((s.tasks u).state = .running ∧ x.resumeAuthority = authority)).mpr
      ⟨fun hnot hleft => ?_, fun u _ hnot hleft => .inl ⟨hnot, hleft, rfl⟩⟩
    exact (hsuspended hnot hleft).imp_left fun hold => ⟨hnot, hold⟩
  · rw [htasks]
    exact (forall_update_iff s.tasks fun u x =>
      (s.tasks u).state.dormant = true → x.state.dormant = true).mpr ⟨hdormant, fun _ _ h => h⟩

/-- The CPU passes from `c`, which is left behind as `left`, to `n`. -/
theorem of_pass {c n : TaskRef} (left : Task) (hqueued : s'.Queued ready)
    (hcurrent : s.current = some c) (hnext : s'.current = some n)
    (htasks : s'.tasks =
      update (update s.tasks n { s.tasks n with state := .running }) c left)
    (hidentity : left.identity = (s.tasks c).identity)
    (hleft : left.state.suspended = true →
      (s.tasks c).state = .running ∧ left.resumeAuthority = authority)
    (hready : (s.tasks n).state = .ready)
    (hdormant : (s.tasks c).state.dormant = true → left.state.dormant = true) :
    s.Passes authority s' := by
  have hsame : ∀ t, t ≠ n → t ≠ c → s'.tasks t = s.tasks t := by
    intro t hn hc
    rw [htasks, update_of_ne hc, update_of_ne hn]
  have hgone : s'.tasks c = left := by rw [htasks, update_self]
  refine ⟨⟨ready, hqueued⟩, fun t => ?_, fun t hnot hsuspended => ?_, fun t ht => ?_⟩
  · by_cases hc : t = c
    · rw [hc, hgone, hidentity]
    by_cases hn : t = n
    · rw [htasks, update_of_ne hc, hn, update_self]
      rfl
    · rw [hsame t hn hc]
  · rw [hnext] at hnot
    have hn : t ≠ n := by
      rintro rfl
      exact hnot rfl
    by_cases hc : t = c
    · subst hc
      rw [hgone] at hsuspended ⊢
      exact .inr (hleft hsuspended)
    · rw [hsame t hn hc] at hsuspended ⊢
      refine .inl ⟨?_, hsuspended, rfl⟩
      rw [hcurrent]
      exact fun heq => hc (Option.some.inj heq).symm
  · by_cases hc : t = c
    · rw [hc, hgone]
      exact hdormant (hc ▸ ht)
    by_cases hn : t = n
    · rw [hn, hready] at ht
      cases ht
    · rw [hsame t hn hc]
      exact ht

end Sched.Passes

namespace Sched.Queued

variable {s : Sched} {ready : List TaskRef} {c n : TaskRef}

theorem rotate_passes (h : s.Queued ready) (hpass : s.CanPass ready c n) (left : Task) {s' : Sched}
    (hrunqueue : s'.runqueue = (s.runqueue.push c).pop.2) (hnext : s'.current = some n)
    (htasks : s'.tasks = update (update s.tasks n { s.tasks n with state := .running }) c left)
    (hidentity : left.identity = (s.tasks c).identity)
    (hauthority : left.resumeAuthority = authority) :
    s.Passes authority s' := by
  obtain ⟨rest, -, hholds, hinit⟩ := h.rotated hpass
  have hqueued : s'.Queued (rest ++ [c]) :=
    ⟨by rw [hrunqueue]; exact hinit, by rw [hrunqueue]; exact hholds⟩
  refine .of_pass left hqueued hpass.current hnext htasks hidentity
    (fun _ => ⟨hpass.running, hauthority⟩) hpass.next_ready ?_
  rw [hpass.running]
  exact nofun

/-- **`scheduler_yield`.** -/
theorem yield_passes (h : s.Queued ready) (registers : Context) :
    s.Passes .context (schedulerYield s registers).2 := by
  rcases h.yield_cases registers with ⟨code, -, heq, -⟩ | ⟨c, n, target, k, hpass, -, -, heq⟩ <;>
    rw [heq]
  · exact .refl h
  · exact h.rotate_passes hpass _ rfl rfl (hpass.yielded_tasks registers) rfl rfl

/-- **A timer interrupt.** -/
theorem timer_passes (h : s.Queued ready) (frame : Word) :
    s.Passes .interrupt (lapicTimerStub s frame).2 := by
  rcases h.stub_cases frame with
    ⟨s', heq, rfl | ⟨c, hcurrent, -, rfl⟩⟩ | ⟨c, n, k, s', -, hpass, -, heq, hs'⟩ <;> rw [heq]
  · exact .refl h
  · -- the event has noted its frame in the current task
    have hqueued : (s.bindFrame c frame).Queued ready := ⟨h.initialized, h.runqueue⟩
    exact .of_update hqueued rfl rfl rfl (fun hnot => absurd hcurrent hnot) fun h => h
  · rcases hs' with rfl | rfl
    all_goals exact h.rotate_passes hpass _ rfl rfl (hpass.preempted_tasks frame) rfl rfl

/-- **`scheduler_start`.** -/
theorem start_passes (h : s.Queued ready) : s.Passes .context (schedulerStart s).2 := by
  unfold schedulerStart
  by_cases hcurrent : s.current.isSome = true
  · rw [if_pos hcurrent]
    exact .refl h
  rw [if_neg hcurrent, h.peek_eq]
  cases ready with
  | nil => exact .refl h
  | cons n rest =>
      rw [List.head?_cons]
      dsimp only
      by_cases hn : (s.tasks n).state = .ready
      swap
      · rw [if_pos hn]
        exact .refl h
      obtain ⟨queue, hpop, hholds, hinit⟩ := h.runqueue.pop
      have htake : schedulerTakeNext s = (some n, { s with runqueue := queue }) := by
        rw [schedulerTakeNext, runqueueDequeue, hpop]
      have hclaim : ({ s with runqueue := queue } : Sched).transition n .running =
          some (Sched.setTask { s with runqueue := queue } n
          { s.tasks n with state := .running }) :=
        Sched.transition_of_allows (by rw [hn]; rfl)
      rw [if_neg (not_not.mpr hn), htake]
      dsimp only
      rw [hclaim]
      refine ⟨⟨rest, hinit, hholds⟩, ?_, fun t hnot hsuspended => ?_, ?_⟩
      · exact (forall_update_iff s.tasks fun u x => x.identity = (s.tasks u).identity).mpr
          ⟨rfl, fun _ _ => rfl⟩
      · have hne : t ≠ n := by
          rintro rfl
          exact hnot rfl
        have hsame : update s.tasks n { s.tasks n with state := .running } t = s.tasks t :=
          update_of_ne hne _ _
        change (update s.tasks n _ t).state.suspended = true at hsuspended
        show _ ∨ _ ∧ (update s.tasks n _ t).resumeAuthority = _
        rw [hsame] at hsuspended
        rw [Option.not_isSome_iff_eq_none] at hcurrent
        refine .inl ⟨by rw [hcurrent]; exact (Option.some_ne_none t).symm, hsuspended, ?_⟩
        exact congrArg Task.resumeAuthority hsame
      · refine (forall_update_iff s.tasks fun u x =>
          (s.tasks u).state.dormant = true → x.state.dormant = true).mpr ⟨?_, fun _ _ h => h⟩
        rw [hn]
        intro hdormant
        cases hdormant

/-- **`task_wake`.** -/
theorem wake_passes (h : s.Queued ready) (t : TaskRef) : s.Passes .context (taskWake s t).2 := by
  rcases h.wake_cases t with ⟨code, -, heq⟩ | ⟨hblocked, hroom, hnot, q, queue, -, -, heq⟩
  · rw [heq]
    exact .refl h
  · rw [heq]
    have hqueued : (s.woken t q queue).Queued (ready ++ [t]) :=
      ⟨h.initialized, h.runqueue.push h.initialized hroom hnot⟩
    refine .of_update hqueued rfl rfl rfl (fun _ _ => .inl ⟨?_, rfl⟩) ?_ <;> rw [hblocked]
    · rfl
    · exact nofun

/-- The tasks after `c` has handed the CPU over. -/
theorem handedOver_passes {rest : List TaskRef} (h : s.Queued (n :: rest)) (hne : n ≠ c)
    (registers : Context) (hcurrent₀ : s₀.current = some c)
    (htasks : s.tasks = update s₀.tasks c task) (hidentity : task.identity = (s₀.tasks c).identity)
    (hleft : task.state.suspended = true → (s₀.tasks c).state = .running ∧
      task.resumeAuthority = authority)
    (hready : (s.tasks n).state = .ready)
    (hdormant : (s₀.tasks c).state.dormant = true → task.state.dormant = true) :
    s₀.Passes authority (s.handedOver c n registers) := by
  obtain ⟨queue, hpop, hholds, hinit⟩ := h.runqueue.pop
  have hqueued : (s.handedOver c n registers).Queued rest := by
    refine ⟨?_, ?_⟩
    · show (s.runqueue.pop.2).initialized = true
      rw [hpop]
      exact hinit
    · show (s.runqueue.pop.2).Holds rest
      rw [hpop]
      exact hholds
  have hc : s.tasks c = task := by rw [htasks, update_self]
  have hn : s.tasks n = s₀.tasks n := by rw [htasks, update_of_ne hne]
  refine .of_pass { task with context := registers } hqueued hcurrent₀ rfl ?_ hidentity hleft
    (hn ▸ hready) hdormant
  show update (update s.tasks n _) c
    { update s.tasks n { s.tasks n with state := .running } c with context := registers } = _
  rw [update_of_ne hne.symm, hc, hn, htasks, update_comm hne.symm, update_idem]

/-- **`task_block`.** -/
theorem block_passes (h : s.Queued ready) (t : TaskRef) (q : WaitQueueRef) (registers : Context) :
    s.Passes .context (taskBlock s t q registers).2 := by
  rcases h.block_cases t q registers with
    ⟨⟨code, -, heq⟩, -⟩ | ⟨hchecks, n, hhead, hn, ⟨-, heq⟩ | ⟨-, k, -, heq⟩⟩
  · rw [heq]
    exact .refl h
  · rw [heq]
    have hqueued : (s.stranded t q).Queued ready := ⟨h.initialized, h.runqueue⟩
    refine .of_update hqueued rfl rfl rfl (fun hnot => absurd hchecks.current hnot) ?_
    rw [hchecks.running]
    exact nofun
  · rw [heq]
    obtain ⟨rest, rfl⟩ : ∃ rest, ready = n :: rest := List.head?_eq_some_iff.mp hhead
    have hne : n ≠ t := by
      rintro rfl
      exact absurd (hchecks.running.symm.trans hn) (by decide)
    have hqueued : (s.irqSave.stranded t q).Queued (n :: rest) := ⟨h.initialized, h.runqueue⟩
    refine hqueued.handedOver_passes hne registers hchecks.current rfl rfl
      (fun _ => ⟨hchecks.running, rfl⟩) ?_ ?_
    · exact (congrArg Task.state (update_of_ne hne _ _)).trans hn
    · rw [show (s.tasks t).state = .running from hchecks.running]
      exact nofun

/-- **`scheduler_exit_current`**, of a task that has just ended. -/
theorem exitCurrent_passes (h : s.Queued ready) (hcurrent : s.current = some c)
    (hcurrent₀ : s₀.current = some c) (htasks : s.tasks = update s₀.tasks c task)
    (hidentity : task.identity = (s₀.tasks c).identity) (hended : task.state = .terminated)
    (registers : Context) : s₀.Passes .context (schedulerExitCurrent s c registers).2 := by
  have hleft : task.state.suspended = true →
      (s₀.tasks c).state = .running ∧ task.resumeAuthority = .context := by
    rw [hended]
    exact nofun
  have hstays : ∀ {s' : Sched}, s'.Queued ready → s'.tasks = s.tasks → s'.current = s.current →
      s₀.Passes .context s' := by
    intro s' hqueued htasks' hcurrent'
    exact .of_update hqueued (htasks'.trans htasks)
      (hcurrent'.trans (hcurrent.trans hcurrent₀.symm)) hidentity
      (fun hnot => absurd hcurrent₀ hnot) fun _ => by rw [hended]; rfl
  have hc : (s.tasks c).state = .terminated := by rw [htasks, update_self, hended]
  unfold schedulerExitCurrent
  rw [if_neg (not_not.mpr hcurrent), if_neg (not_not.mpr hc)]
  by_cases hflag : s.interruptFlag = true
  · rw [if_pos hflag]
    exact hstays h rfl rfl
  rw [if_neg hflag, h.peek_eq]
  cases ready with
  | nil => exact hstays ⟨h.initialized, h.runqueue⟩ rfl rfl
  | cons n rest =>
      rw [List.head?_cons]
      dsimp only
      by_cases hn : (s.tasks n).state = .ready
      · have hne : n ≠ c := by
          rintro rfl
          exact absurd (hc.symm.trans hn) (by decide)
        rcases h.handOver_cases hn hne (-4) registers with ⟨-, heq⟩ | ⟨-, k, -, heq⟩
        · rw [heq]
          exact hstays h rfl rfl
        · rw [heq]
          exact h.handedOver_passes hne registers hcurrent₀ htasks hidentity hleft hn
            fun _ => by rw [hended]; rfl
      · rw [handOver, if_pos hn]
        exact hstays h rfl rfl

end Sched.Queued

end Batos
