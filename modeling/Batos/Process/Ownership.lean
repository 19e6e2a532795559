import Batos.Process.Membership
import Batos.Sched.Handoff
import Batos.Sched.Reclaim
import Batos.Vmm.Spaces

/-!
# Who answers for a task

A task that runs, waits for the CPU or waits for an event is registered; a registered
task is managed, so that its end is the business of the reaper; a task whose end has
been published has given up the CPU for good.  `Kernel.Inv` is the joint invariant of
the two registries, the scheduler, the queue of the reaper and the memory below them.

The rest of the module says what each elementary change does to the invariant: an
object that nobody uses is overwritten, a task enters or leaves the registry, a process,
the runqueue or the queue of the reaper.  The operations of `execution.c` and
`lifecycle.c` are sequences of these.
-/

namespace Batos

open Function

variable {task : Task} {processes : ProcessRef → Process} {index : Fin taskMaxTasks}

/-! ## What the scheduler leaves alone -/

/-- A task without its place in the scheduler. -/
def Task.identity (task : Task) : Task :=
  { task with
    state := .new
    waitQueue := none
    resumeAuthority := .none
    preemptState := {}
    context := {} }

namespace Sched

variable {s s' : Sched} {owner : Option TaskRef} {ready : List TaskRef}
  {waiting : WaitQueueRef → List TaskRef} {t : TaskRef}

/-- The scheduler has the task. -/
def Active (s : Sched) (t : TaskRef) : Prop :=
  s.current = some t ∨ t ∈ s.runqueue.items ∨ ∃ q, t ∈ (s.waitQueues q).items

theorem Inv.canonical (h : s.Inv owner ready waiting) :
    s.Inv owner s.runqueue.items fun q => (s.waitQueues q).items := by
  have hwaiting : (fun q => (s.waitQueues q).items) = waiting :=
    funext fun q => (h.waitQueue q).items_eq
  rw [h.runqueue.items_eq, hwaiting]
  exact h

theorem Inv.active_iff (h : s.Inv owner ready waiting) :
    s.Active t ↔ s.current = some t ∨ t ∈ ready ∨ ∃ q, t ∈ waiting q := by
  simp only [Active, h.runqueue.items_eq, fun q => (h.waitQueue q).items_eq]

/-- What nobody has in a queue does not wait. -/
theorem Inv.waitQueue_eq_none_of_not_active (h : s.Inv owner ready waiting) (ht : ¬ s.Active t) :
    (s.tasks t).waitQueue = none := by
  cases hqueue : (s.tasks t).waitQueue with
  | none => rfl
  | some q => exact absurd (h.active_iff.mpr (.inr (.inr ⟨q, (h.waiting_iff q t).mpr hqueue⟩))) ht

/-- An object the scheduler does not have is overwritten. -/
theorem Inv.overwrite (h : s.Inv owner ready waiting) (howner : owner = none ∨ owner = s.current)
    (ht : ¬ s.Active t) (hrunning : task.state ≠ .running) (hblocked : task.state ≠ .blocked)
    (hqueue : task.waitQueue = none)
    (hresumable : task.state.live = true → task.continuation ≠ none) :
    (s.setTask t task).Inv owner ready waiting := by
  have hnot : owner ≠ some t := by
    rintro rfl
    exact ht (.inl (howner.resolve_left nofun).symm)
  refine h.setTask (iff_of_false hnot hrunning) (fun _ _ => Iff.rfl) (fun hmem => ?_) hresumable
    (hqueue.trans (h.waitQueue_eq_none_of_not_active ht).symm)
    (iff_of_false hblocked fun hne => hne hqueue)
  exact absurd (h.active_iff.mpr (.inr (.inl hmem))) ht

/-- A step of the scheduler changes the place of tasks and nothing else; it brings none
back that has ended, and has no new ones. -/
structure Moves (s s' : Sched) : Prop where
  identity : ∀ t, (s'.tasks t).identity = (s.tasks t).identity
  ended : ∀ t, (s.tasks t).state = .terminated → (s'.tasks t).state = .terminated ∧
    (s'.tasks t).resumeAuthority = (s.tasks t).resumeAuthority
  active : ∀ t, s'.Active t → s.Active t

/-- No task changes. -/
theorem Moves.of_tasks_eq (htasks : s'.tasks = s.tasks) (hactive : ∀ u, s'.Active u → s.Active u) :
    s.Moves s' := by
  refine ⟨fun u => ?_, fun u hu => ?_, hactive⟩ <;> rw [htasks]
  exact ⟨hu, rfl⟩

/-- One task changes its place. -/
theorem Moves.of_update (hlive : (s.tasks t).state ≠ .terminated)
    (htasks : s'.tasks = update s.tasks t task) (hidentity : task.identity = (s.tasks t).identity)
    (hactive : ∀ u, s'.Active u → s.Active u) : s.Moves s' := by
  refine ⟨?_, ?_, hactive⟩
  · rw [htasks]
    exact (forall_update_iff s.tasks
      fun u x => x.identity = (s.tasks u).identity).mpr ⟨hidentity, fun _ _ => rfl⟩
  · rw [htasks]
    exact (forall_update_iff s.tasks fun u x => (s.tasks u).state = .terminated →
      x.state = .terminated ∧ x.resumeAuthority = (s.tasks u).resumeAuthority).mpr
      ⟨fun hended => absurd hended hlive, fun _ _ hended => ⟨hended, rfl⟩⟩

/-- A handoff concerns the two tasks involved. -/
theorem Moves.of_handoff {c n : TaskRef} {left : Task} {k : Continuation}
    (hhandoff : Handoff s c n left k s') (hidentity : left.identity = (s.tasks c).identity)
    (hended : (s.tasks c).state = .terminated → left.state = .terminated ∧
      left.resumeAuthority = (s.tasks c).resumeAuthority)
    (hactive : ∀ u, s'.Active u → s.Active u) : s.Moves s' := by
  have hlive : (s.tasks n).state ≠ .terminated := by
    rw [hhandoff.ready]
    exact nofun
  have hnext : s.Moves (s.setTask n { s.tasks n with state := .running }) :=
    Moves.of_update hlive rfl rfl fun _ hu => hu
  refine ⟨?_, ?_, hactive⟩
  · rw [hhandoff.tasks]
    exact (forall_update_iff _ fun u (x : Task) => x.identity = (s.tasks u).identity).mpr
      ⟨hidentity, fun u _ => hnext.identity u⟩
  · rw [hhandoff.tasks]
    exact (forall_update_iff _ fun u (x : Task) => (s.tasks u).state = .terminated →
      x.state = .terminated ∧ x.resumeAuthority = (s.tasks u).resumeAuthority).mpr
      ⟨hended, fun u _ => hnext.ended u⟩

end Sched

/-- Memory moves on, and a task object is overwritten. -/
def Kernel.refit (k : Kernel) (v : Vmm) (t : TaskRef) (task : Task) : Kernel :=
  { k with vmm := v, sched := k.sched.setTask t task }

theorem Kernel.refit_self (k : Kernel) (t : TaskRef) : k.refit k.vmm t (k.task t) = k := by
  simp only [Kernel.refit, Sched.setTask, update_eq_self]

@[simp] theorem Kernel.task_refit (k : Kernel) (v : Vmm) (t : TaskRef) (task : Task) :
    (k.refit v t task).task t = task :=
  update_self _ _ _

/-! ## The invariant -/

/-- What a kernel runs on: the image of the kernel, the machine it was booted on, and
the window of the task stacks. -/
structure Platform where
  image : KernelImage
  boot : MmBoot
  layout : KernelLayout

namespace Platform

/-- The kernel's own address space. -/
def root (platform : Platform) : Word := vmmGetPml4 platform.boot.start.vmm

/-- A state of the memory subsystem in which the window of the task stacks holds frames
of clients only. -/
def Backs (platform : Platform) (v : Vmm) : Prop :=
  ∃ m, (mmSystem platform.image).Reachable platform.boot.start m ∧
    WindowOwned platform.root platform.layout.window m ∧ m.vmm = v

variable {platform : Platform} {v : Vmm}

/-- The kernel's address space stays the same. -/
theorem root_of_reachable {m : Mm}
    (hm : (mmSystem platform.image).Reachable platform.boot.start m) :
    vmmGetPml4 m.vmm = platform.root := by
  have hinv : m.Inv ∧ vmmGetPml4 m.vmm = platform.root :=
    hm.induction (fun m => m.Inv ∧ vmmGetPml4 m.vmm = platform.root)
      (fun m op h hop => ⟨h.1.step _ hop, (h.1.kernelPml4_step _ op).trans h.2⟩)
      ⟨platform.boot.inv_start, rfl⟩
  exact hinv.2

theorem Backs.root_eq (h : platform.Backs v) : vmmGetPml4 v = platform.root := by
  obtain ⟨m, hm, -, rfl⟩ := h
  exact root_of_reachable hm

theorem Backs.inv (h : platform.Backs v) : v.paging.Inv ∅ := by
  obtain ⟨m, hm, -, rfl⟩ := h
  exact (platform.boot.inv_start.of_reachable hm).paging

theorem backs_start (platform : Platform) : platform.Backs platform.boot.start.vmm :=
  ⟨platform.boot.start, .refl _ _, windowOwned_start platform.boot _, rfl⟩

/-- Constructing a task. -/
theorem Backs.taskCreate (h : platform.Backs v) (taskAddress : Word) (task : Task)
    (id addressSpace entry argument : Word) :
    platform.Backs (taskCreate platform.layout.toTaskLayout taskAddress v task id addressSpace entry
      argument).2.2 := by
  obtain ⟨m, hm, hown, rfl⟩ := h
  rw [← root_of_reachable hm] at hown
  obtain ⟨m', hm', hown', hvmm⟩ := taskCreate_reachable hm platform.layout.toTaskLayout hown
    taskAddress task id addressSpace entry argument
  rw [root_of_reachable hm'] at hown'
  exact ⟨m', hm', hown', hvmm⟩

/-- Unmapping the stack of a task. -/
theorem Backs.taskUnmapStack (h : platform.Backs v) (hspace : task.addressSpace = platform.root)
    (hpages : ∀ page, stackPage task.kernelStackBase page ∈ platform.layout.window) :
    ∃ code frames paging, taskUnmapStack v.paging task =
        (code, { task with kernelStackPages := frames }, paging) ∧
      platform.Backs { v with paging := paging } := by
  obtain ⟨m, hm, hown, rfl⟩ := h
  rw [← hspace] at hown
  obtain ⟨code, frames, m', heq, hreach, hown', hvmm⟩ := taskUnmapStack_reachable platform.image
    (platform.boot.inv_start.of_reachable hm) hown hpages
  rw [hspace] at hown'
  exact ⟨code, frames, m'.vmm.paging, heq, m', hm.trans hreach, hown', hvmm⟩

end Platform

/-- A kernel on the machine of the examples. -/
def demoPlatform : Platform where
  image := demoImage
  boot := demoBoot
  layout :=
    { toTaskLayout := demoLayout, taskAddress := fun t => 0x9000 + 0x1000 * BitVec.ofNat 64 t }

/-- The queues of the scheduler and of the reaper, the registries and the memory are
consistent.  `owner` is who runs; it is nobody once the CPU is halted, although
`scheduler_current` still names the last task then. -/
structure Kernel.Inv (platform : Platform) (k : Kernel) (owner : Option TaskRef) : Prop where
  membership : k.Membership
  owned : owner = none ∨ owner = k.sched.current
  sched : k.sched.Inv owner k.sched.runqueue.items fun q => (k.sched.waitQueues q).items
  initialized : k.taskRegistry.initialized = true
  keyed : k.taskRegistry.Keyed fun t => (k.task t).id.toNat
  counted : k.taskRegistry.Counted
  lifecycle : k.lifecycle.initialized = true
  pending : k.lifecycle.Holds k.lifecycle.items
  /-- What the scheduler has is registered. -/
  active : ∀ t, k.sched.Active t → k.taskRegistry.Mem t
  /-- The reaper answers for what is registered. -/
  managed : ∀ t, k.taskRegistry.Mem t ∨ t ∈ k.lifecycle.items → (k.task t).lifecycleMode = .managed
  /-- What has been published has ended. -/
  ended : ∀ t ∈ k.lifecycle.items,
    (k.task t).state = .terminated ∧ (k.task t).resumeAuthority = .none
  /-- A registered task has its stack in the slot of its id. -/
  stack : ∀ t, k.taskRegistry.Mem t → (k.task t).addressSpace = platform.root ∧
    (k.task t).kernelStackBase = taskStackVirtualFor platform.layout.toTaskLayout (k.task t).id
  memory : platform.Backs k.vmm

namespace Kernel.Inv

variable {platform : Platform} {k : Kernel} {owner : Option TaskRef} {t : TaskRef} {p : ProcessRef}

/-- A task that has ended and whose CPU has gone to another is not the scheduler's. -/
theorem not_active_of_terminated (h : k.Inv platform k.sched.current)
    (ht : (k.task t).state = .terminated) : ¬ k.sched.Active t := by
  rintro (hcurrent | hready | ⟨q, hwaiting⟩)
  · have hrunning := (h.sched.running t).mp hcurrent
    rw [ht] at hrunning
    cases hrunning
  · have hready := h.sched.queued t hready
    rw [ht] at hready
    cases hready
  · have hblocked := (h.sched.blocked_iff t).mpr (by
      rw [(h.sched.waiting_iff q t).mp hwaiting]
      exact nofun)
    rw [ht] at hblocked
    cases hblocked

theorem contains_iff (h : k.Inv platform owner) (t : TaskRef) :
    taskRegistryContains k t = true ↔ k.taskRegistry.Mem t := by
  rw [taskRegistryContains, h.initialized, Bool.true_and, decide_eq_true_eq]
  exact h.keyed.find_iff (x := t)

/-- The id of a registered task has a slot. -/
theorem id_valid (h : k.Inv platform owner) (ht : k.taskRegistry.Mem t) :
    (k.task t).id ≠ 0 ∧ (k.task t).id.toNat ≤ taskMaxTasks := by
  obtain ⟨index, hslot⟩ := ht
  have hid : (k.task t).id.toNat = index.val + 1 := h.keyed index t hslot
  have hindex := index.isLt
  refine ⟨fun hzero => ?_, by omega⟩
  rw [hzero] at hid
  change 0 = _ at hid
  omega

/-- The stack of a registered task lies in the window. -/
theorem stackPage_mem (h : k.Inv platform owner) (ht : k.taskRegistry.Mem t) (page : Fin 4) :
    stackPage (k.task t).kernelStackBase page ∈ platform.layout.window := by
  rw [(h.stack t ht).2]
  obtain ⟨hid, hmax⟩ := h.id_valid ht
  exact stackPage_mem_window platform.layout.toTaskLayout hid hmax page

/-! ## Elementary changes -/

/-- Processes come and go without any task noticing. -/
theorem reprocess (h : k.Inv platform owner) {registry : IdTable ProcessRef processMaxProcesses}
    (hmembership : Kernel.Membership
      { k with processes := processes, processRegistry := registry }) :
    Kernel.Inv platform { k with processes := processes, processRegistry := registry } owner :=
  { h with membership := hmembership }

/-- A task joins or leaves a process. -/
theorem rewire (h : k.Inv platform owner) {process : Option ProcessRef}
    (hmembership : Kernel.Membership { k with
      processes := processes, sched := k.sched.setTask t { k.task t with process := process } }) :
    Kernel.Inv platform { k with
      processes := processes
      sched := k.sched.setTask t { k.task t with process := process } } owner := by
  have hsame : ∀ u, let x := (k.sched.setTask t { k.task t with process := process }).tasks u
      { x with process := (k.task u).process } = k.task u :=
    (forall_update_iff k.sched.tasks fun u x =>
      { x with process := (k.task u).process } = k.task u).mpr ⟨rfl, fun _ _ => rfl⟩
  have hfield : ∀ {β : Type} (f : Task → β), (∀ x q, f { x with process := q } = f x) →
      ∀ u, f ((k.sched.setTask t { k.task t with process := process }).tasks u) = f (k.task u) := by
    intro β f hf u
    rw [← hf, ← congrArg f (hsame u)]
  refine { h with
    membership := hmembership
    sched := h.sched.amend t _ rfl rfl (h.sched.resumable t)
    keyed := h.keyed.congr fun u _ => hfield (fun x => x.id.toNat) (fun _ _ => rfl) u
    managed := fun u hu => ?_
    ended := fun u hu => ?_
    stack := fun u hu => ?_ }
  · exact (hfield Task.lifecycleMode (fun _ _ => rfl) u).trans (h.managed u hu)
  · exact ⟨(hfield Task.state (fun _ _ => rfl) u).trans (h.ended u hu).1,
      (hfield Task.resumeAuthority (fun _ _ => rfl) u).trans (h.ended u hu).2⟩
  · refine ⟨(hfield Task.addressSpace (fun _ _ => rfl) u).trans (h.stack u hu).1, ?_⟩
    exact (hfield Task.kernelStackBase (fun _ _ => rfl) u).trans ((h.stack u hu).2.trans
      (congrArg _ (hfield Task.id (fun _ _ => rfl) u).symm))

/-- An object that is neither registered nor attached is overwritten, and memory moves
on. -/
theorem overwrite (h : k.Inv platform owner) (hmem : ¬ k.taskRegistry.Mem t)
    (hprocess : (k.task t).process = none) {v : Vmm} (hprocess' : task.process = none)
    (hrunning : task.state ≠ .running) (hblocked : task.state ≠ .blocked)
    (hqueue : task.waitQueue = none)
    (hresumable : task.state.live = true → task.continuation ≠ none)
    (hpending : t ∈ k.lifecycle.items → task.state = .terminated ∧ task.resumeAuthority = .none ∧
      task.lifecycleMode = .managed)
    (hv : platform.Backs v) :
    (k.refit v t task).Inv platform owner := by
  have hsame : ∀ u, u ≠ t → (k.sched.setTask t task).tasks u = k.task u :=
    fun u hu => update_of_ne hu _ _
  have hne : ∀ u, k.taskRegistry.Mem u → u ≠ t := by
    rintro u hu rfl
    exact hmem hu
  refine { h with
    membership := (h.membership.setTask hprocess hprocess').frame rfl rfl
      (fun _ => rfl) fun _ _ => rfl
    sched := h.sched.overwrite h.owned (fun hactive => hmem (h.active t hactive)) hrunning hblocked
      hqueue hresumable
    keyed := h.keyed.congr fun u hu => ?_
    managed := fun u hu => ?_
    ended := fun u hu => ?_
    stack := fun u hu => ?_
    memory := hv }
  · show ((k.sched.setTask t task).tasks u).id.toNat = _
    rw [hsame u (hne u hu)]
  · show ((k.sched.setTask t task).tasks u).lifecycleMode = _
    by_cases hut : u = t
    · subst hut
      rw [Sched.setTask_self]
      exact (hpending (hu.resolve_left hmem)).2.2
    · rw [hsame u hut]
      exact h.managed u hu
  · show ((k.sched.setTask t task).tasks u).state = _ ∧
      ((k.sched.setTask t task).tasks u).resumeAuthority = _
    by_cases hut : u = t
    · subst hut
      rw [Sched.setTask_self]
      exact ⟨(hpending hu).1, (hpending hu).2.1⟩
    · rw [hsame u hut]
      exact h.ended u hu
  · show ((k.sched.setTask t task).tasks u).addressSpace = _ ∧
      ((k.sched.setTask t task).tasks u).kernelStackBase =
        taskStackVirtualFor _ ((k.sched.setTask t task).tasks u).id
    rw [hsame u (hne u hu)]
    exact h.stack u hu

/-- A task enters the registry. -/
theorem register (h : k.Inv platform owner) (hfree : k.taskRegistry.slots index = none)
    (hid : (k.task t).id.toNat = index.val + 1) (hmanaged : (k.task t).lifecycleMode = .managed)
    (hspace : (k.task t).addressSpace = platform.root)
    (hbase : (k.task t).kernelStackBase = taskStackVirtualFor platform.layout.toTaskLayout
      (k.task t).id) :
    Kernel.Inv platform { k with taskRegistry := k.taskRegistry.insert index t } owner := by
  have hmem : ∀ u, (k.taskRegistry.insert index t).Mem u ↔ u = t ∨ k.taskRegistry.Mem u :=
    fun u => IdTable.mem_insert_of_free hfree
  refine { h with
    membership := h.membership.frame rfl rfl (fun _ => rfl) fun _ _ => rfl
    keyed := h.keyed.insert hid
    counted := h.counted.insert hfree t
    active := fun u hu => (hmem u).mpr (.inr (h.active u hu))
    managed := fun u hu => ?_
    stack := fun u hu => ?_ }
  · rcases hu with hu | hu
    · rcases (hmem u).mp hu with rfl | hu
      · exact hmanaged
      · exact h.managed u (.inl hu)
    · exact h.managed u (.inr hu)
  · rcases (hmem u).mp hu with rfl | hu
    · exact ⟨hspace, hbase⟩
    · exact h.stack u hu

/-- A task the scheduler does not have leaves the registry. -/
theorem unregister (h : k.Inv platform owner) (hslot : k.taskRegistry.slots index = some t)
    (ht : ¬ k.sched.Active t) :
    Kernel.Inv platform { k with taskRegistry := k.taskRegistry.erase index } owner ∧
      ¬ (k.taskRegistry.erase index).Mem t := by
  have hmem : ∀ u, (k.taskRegistry.erase index).Mem u ↔ k.taskRegistry.Mem u ∧ u ≠ t :=
    fun u => h.keyed.mem_erase hslot
  refine ⟨{ h with
    membership := h.membership.frame rfl rfl (fun _ => rfl) fun _ _ => rfl
    keyed := h.keyed.erase
    counted := h.counted.erase hslot
    active := fun u hu => (hmem u).mpr ⟨h.active u hu, ?_⟩
    managed := fun u hu => h.managed u (hu.imp_left fun hu => ((hmem u).mp hu).1)
    stack := fun u hu => h.stack u ((hmem u).mp hu).1 }, fun hu => ((hmem t).mp hu).2 rfl⟩
  rintro rfl
  exact ht hu

/-- **A step of the scheduler.** -/
theorem reschedule (h : k.Inv platform owner) {s : Sched} {owner' : Option TaskRef}
    {ready : List TaskRef} {waiting : WaitQueueRef → List TaskRef}
    (hinv : s.Inv owner' ready waiting)
    (howner : owner' = none ∨ owner' = s.current) (hmoves : k.sched.Moves s) :
    Kernel.Inv platform { k with sched := s } owner' := by
  have hfield : ∀ {β : Type} (f : Task → β), (∀ x, f x.identity = f x) →
      ∀ u, f (s.tasks u) = f (k.task u) := by
    intro β f hf u
    rw [← hf (s.tasks u), hmoves.identity u, hf]
  refine { h with
    membership := h.membership.frame rfl rfl (hfield Task.process fun _ => rfl)
      fun u _ => hfield Task.addressSpace (fun _ => rfl) u
    owned := howner
    sched := hinv.canonical
    keyed := h.keyed.congr fun u _ => hfield (fun x => x.id.toNat) (fun _ => rfl) u
    active := fun u hu => h.active u (hmoves.active u hu)
    managed := fun u hu => (hfield Task.lifecycleMode (fun _ => rfl) u).trans (h.managed u hu)
    ended := fun u hu => ?_
    stack := fun u hu => ⟨(hfield Task.addressSpace (fun _ => rfl) u).trans (h.stack u hu).1, ?_⟩ }
  · obtain ⟨hstate, hresume⟩ := hmoves.ended u (h.ended u hu).1
    exact ⟨hstate, hresume.trans (h.ended u hu).2⟩
  · exact (hfield Task.kernelStackBase (fun _ => rfl) u).trans ((h.stack u hu).2.trans
      (congrArg _ (hfield Task.id (fun _ => rfl) u).symm))

/-- A READY task that is registered joins the runqueue. -/
theorem enqueue (h : k.Inv platform k.sched.current) (hmem : k.taskRegistry.Mem t)
    (hready : (k.task t).state = .ready) (hnot : t ∉ k.sched.runqueue.items)
    (hroom : k.sched.runqueue.items.length < taskMaxTasks) :
    Kernel.Inv platform
      { k with sched := { k.sched with runqueue := k.sched.runqueue.push t } } k.sched.current := by
  have hadded := (h.sched.enqueue hready hnot hroom).2
  refine { h with
    membership := h.membership.frame rfl rfl (fun _ => rfl) fun _ _ => rfl
    sched := hadded.canonical
    active := fun u hu => ?_ }
  rcases hadded.active_iff.mp hu with hcurrent | hmem' | hwaiting
  · exact h.active u (.inl hcurrent)
  · rcases List.mem_append.mp hmem' with hmem' | hmem'
    · exact h.active u (.inr (.inl hmem'))
    · rw [List.mem_singleton.mp hmem']
      exact hmem
  · exact h.active u (.inr (.inr hwaiting))

/-- The end of a registered task is published. -/
theorem publish (h : k.Inv platform owner) (hmem : k.taskRegistry.Mem t)
    (hstate : (k.task t).state = .terminated) (hresume : (k.task t).resumeAuthority = .none)
    (hnot : t ∉ k.lifecycle.items) (hroom : k.lifecycle.items.length < taskMaxTasks) :
    Kernel.Inv platform { k with lifecycle := k.lifecycle.push t } owner ∧
      (k.lifecycle.push t).items = k.lifecycle.items ++ [t] := by
  have hpending := h.pending.push h.lifecycle hroom hnot
  have hitems := hpending.items_eq
  refine ⟨{ h with
    membership := h.membership.frame rfl rfl (fun _ => rfl) fun _ _ => rfl
    lifecycle := h.lifecycle
    pending := hitems ▸ hpending
    managed := fun u hu => ?_
    ended := fun u hu => ?_ }, hitems⟩
  · rcases hu with hu | hu
    · exact h.managed u (.inl hu)
    · rcases List.mem_append.mp (hitems ▸ hu) with hu | hu
      · exact h.managed u (.inr hu)
      · rw [List.mem_singleton.mp hu]
        exact h.managed t (.inl hmem)
  · rcases List.mem_append.mp (hitems ▸ hu) with hu | hu
    · exact h.ended u hu
    · rw [List.mem_singleton.mp hu]
      exact ⟨hstate, hresume⟩

/-- The first task of the reaper's queue is done with. -/
theorem retire (h : k.Inv platform owner) {rest : List TaskRef}
    (hitems : k.lifecycle.items = t :: rest) :
    Kernel.Inv platform { k with lifecycle := k.lifecycle.pop.2 } owner ∧
      k.lifecycle.pop.2.items = rest := by
  have hpending := h.pending
  rw [hitems] at hpending
  obtain ⟨queue, hpop, hholds, hinit⟩ := hpending.pop
  rw [hpop]
  have hsub : ∀ u ∈ queue.items, u ∈ k.lifecycle.items := by
    intro u hu
    rw [hholds.items_eq] at hu
    rw [hitems]
    exact List.mem_cons_of_mem t hu
  exact ⟨{ h with
    membership := h.membership.frame rfl rfl (fun _ => rfl) fun _ _ => rfl
    lifecycle := hinit
    pending := hholds.items_eq ▸ hholds
    managed := fun u hu => h.managed u (hu.imp_right (hsub u))
    ended := fun u hu => h.ended u (hsub u hu) }, hholds.items_eq⟩

end Kernel.Inv

end Batos
