import Batos.Process.Unguarded

/-!
# Destruction before the first run

`execution_destroy_task` and `execution_destroy_kernel_task` undo the construction of a task
that has been published and, so the intention, has not run yet.  Both look first
(`execution_preflight_destroy_task`) and act afterwards, in four fallible steps and up to two
more for the process.

*All or nothing.*  The preflight asks for less than the steps need: the count of the
registry, the place in the list of the process and the shape of the page tables are not
looked at.  They are part of what no caller can destroy (`Kernel.Robust`), and so, once the
preflight has passed, no step fails (`destruction_all_or_nothing`).

*Only before the first run.*  Nothing records that a task has run.  The preflight infers it
from the state and the resume authority, which tells preemption by the timer from everything
else.  A task that has given the CPU up itself waits with the authority it was built with,
and its record of the past (`Past`) shows what the preflight cannot see: such a task is
destroyed (`rollback_spares_iff`).
-/

namespace Batos

open Function
open KernelMachine (boot robust_boot)

variable {platform : Platform} {k k' : Kernel} {p : ProcessRef} {t : TaskRef}

/-! ## The preflight -/

/-- What the preflight asks for, the resume authority apart. -/
structure Kernel.Disposable (k : Kernel) (p : ProcessRef) (t : TaskRef) : Prop where
  ready : (k.task t).state = .ready
  attached : (k.task t).process = some p
  registered : taskRegistryContains k t = true
  process : processRegistryContains k p = true
  queued : t ∈ k.sched.runqueue.items
  idle : k.sched.current ≠ some t
  waitQueue : (k.task t).waitQueue = none
  translates : ∀ page, vmmTranslate k.vmm.paging (k.task t).addressSpace
    (stackPage (k.task t).kernelStackBase page) = some ((k.task t).kernelStackPages page)

namespace Kernel.Robust

/-- A task that is alive has a stack. -/
theorem base_ne_zero (h : k.Robust platform) (hstate : (k.task t).state = .ready) :
    (k.task t).kernelStackBase ≠ 0 := by
  intro hzero
  have hdormant := h.bare t hzero
  rw [hstate] at hdormant
  cases hdormant

/-- **When the preflight passes.** -/
theorem preflight_iff (h : k.Robust platform) :
    executionPreflightDestroyTask k p t = true ↔
      k.Disposable p t ∧ (k.task t).resumeAuthority ≠ .interrupt := by
  obtain ⟨ready, hqueued⟩ := h.runqueue
  have hitems : k.sched.runqueue.contains t = true ↔ t ∈ k.sched.runqueue.items := by
    rw [hqueued.runqueue.contains_iff, hqueued.runqueue.items_eq]
  simp only [executionPreflightDestroyTask, taskValidateReclaim, Bool.and_eq_true,
    decide_eq_true_eq, Bool.or_eq_true, Option.isNone_iff_eq_none, List.all_eq_true,
    beq_iff_eq, hitems]
  constructor
  · rintro ⟨⟨⟨⟨⟨hready, hattached⟩, hregistered⟩, hprocess⟩, hmem⟩,
      ⟨⟨⟨hidle, hresume⟩, -⟩, hwaiting⟩, hstack⟩
    have htranslates := hstack.resolve_left (h.base_ne_zero hready)
    exact ⟨⟨hready, hattached, hregistered, hprocess, hmem, hidle, hwaiting,
      fun page => htranslates page (List.mem_finRange page)⟩, hresume⟩
  · rintro ⟨hdisposable, hresume⟩
    obtain ⟨hready, hattached, hregistered, hprocess, hmem, hidle, hwaiting, htranslates⟩ :=
      hdisposable
    exact ⟨⟨⟨⟨⟨hready, hattached⟩, hregistered⟩, hprocess⟩, hmem⟩,
      ⟨⟨⟨hidle, hresume⟩, .inl hready⟩, hwaiting⟩, .inr fun page _ => htranslates page⟩

/-- **A stack that is found by translation is the stack of the task**, and its frames are
given back without complaint. -/
theorem hasStack (h : k.Robust platform) (hdisposable : k.Disposable p t) :
    (k.task t).HasStack platform k.vmm.paging := by
  have hbase := h.base_ne_zero hdisposable.ready
  obtain ⟨hid, hmax, hspace, hslot⟩ := h.stack t hbase
  have hwindow : StackWindow (k.task t).kernelStackBase := by
    rw [hslot]
    exact stackWindow_taskStackVirtualFor _ hid hmax
  have htranslates := hdisposable.translates
  rw [hspace] at htranslates
  have hmapped := stackMapped_of_translates h.small hwindow (h.stackPage_mem hbase) htranslates
  refine ⟨hid, hmax, hspace, hslot, hmapped, fun page => ?_⟩
  obtain ⟨entry, hleaf, hentry⟩ := hmapped page
  obtain ⟨m, hm, hown, hvmm⟩ := h.memory
  rw [← hvmm] at hleaf ⊢
  rw [← hentry]
  exact Mm.releases_of_held platform.image hm (hown.held (h.stackPage_mem hbase page) hleaf)

end Kernel.Robust

/-! ## All or nothing -/

/-- The task is gone: from the runqueue, from the list of its process, from its slot of the
registry, and with its stack.  Everything else is as it was. -/
structure Kernel.Destroyed (platform : Platform) (k k' : Kernel) (p : ProcessRef) (t : TaskRef) :
    Prop where
  /-- The runqueue loses the task, and the others keep their order. -/
  runqueue : t ∈ k.sched.runqueue.items ∧ k'.sched.runqueue.items = k.sched.runqueue.items.erase t ∧
    t ∉ k'.sched.runqueue.items
  tasks : k'.sched.tasks = update k.sched.tasks t (k.task t).reclaimed
  sched : { k'.sched with runqueue := k.sched.runqueue, tasks := k.sched.tasks } = k.sched
  registry : ∃ index, (k.task t).id.toNat = index.val + 1 ∧ k.taskRegistry.slots index = some t ∧
    k'.taskRegistry = k.taskRegistry.erase index
  unregistered : taskRegistryContains k' t = false
  list : ∃ items rest, (k.processes p).tasks.Represents items ∧
    (k'.processes p).tasks.Represents rest ∧
    items.Perm (t :: rest) ∧ t ∉ rest
  processes : k'.processes =
    update k.processes p { k.processes p with tasks := (k'.processes p).tasks }
  processRegistry : k'.processRegistry = k.processRegistry
  lifecycle : k'.lifecycle = k.lifecycle
  /-- The pages of the stack are unmapped, and no others. -/
  mappings : ∀ va,
    (OnStack (k.task t).kernelStackBase stackPages va →
      vmmTranslate k'.vmm.paging platform.root va = none) ∧
    (¬ OnStack (k.task t).kernelStackBase stackPages va →
      vmmTranslate k'.vmm.paging platform.root va = vmmTranslate k.vmm.paging platform.root va)
  /-- Their frames are given back, and no others. -/
  frames : (∀ page, k.vmm.paging.pmm.used (frameOf ((k.task t).kernelStackPages page)) = true) ∧
    ∀ f, k'.vmm.paging.pmm.used f = true ↔ k.vmm.paging.pmm.used f = true ∧
      ¬ ∃ page, frameOf ((k.task t).kernelStackPages page) = f

/-- The last step, on a task that nobody has any more. -/
theorem Kernel.Robust.taskDestroy_of_hasStack (h : k.Robust platform)
    (hstack : (k.task t).HasStack platform k.vmm.paging) (hready : (k.task t).state = .ready)
    (hidle : k.sched.current ≠ some t) (hresume : (k.task t).resumeAuthority ≠ .interrupt)
    (hwaiting : (k.task t).waitQueue = none) (hprocess : (k.task t).process = none)
    (hqueued : k.sched.runqueue.contains t = false)
    (hregistered : taskRegistryContains k t = false) :
    ∃ v, Batos.taskDestroy k t = (0, k.refit v t (k.task t).reclaimed) ∧
      (∀ f, v.paging.pmm.used f = true ↔ k.vmm.paging.pmm.used f = true ∧
        ¬ ∃ page, frameOf ((k.task t).kernelStackPages page) = f) ∧
      k.vmm.paging.Vacates platform.root (k.task t).kernelStackBase stackPages v.paging := by
  obtain ⟨v₁, -, hok, -⟩ :=
    taskDestroy_of_mapped rfl h.memory hstack.space hstack.base_ne_zero hstack.window
    hstack.mem_window hstack.mapped hidle hresume (.inl hready) hwaiting hprocess
    hqueued hregistered
  rcases taskDestroy_outcome h.memory hstack with hfailed | ⟨v, heq, -, -, -, hused, hlookup⟩
  · have hcode : (0 : ℤ) = -1 := congrArg Prod.fst (hok.symm.trans hfailed)
    cases hcode
  · exact ⟨v, heq, hused, hlookup⟩

/-- **`execution_destroy_task`** fails before it has done anything, or succeeds. -/
theorem Kernel.Robust.executionDestroyTask_cases (h : k.Robust platform)
    (p : ProcessRef) (t : TaskRef) :
    (executionPreflightDestroyTask k p t = false ∧ Batos.executionDestroyTask k p t = (-1, k)) ∨
      executionPreflightDestroyTask k p t = true ∧
        ∃ k', Batos.executionDestroyTask k p t = (0, k') ∧ k.Destroyed platform k' p t := by
  cases hpreflight : executionPreflightDestroyTask k p t with
  | false => exact .inl ⟨rfl, if_pos hpreflight⟩
  | true =>
  refine .inr ⟨rfl, ?_⟩
  obtain ⟨hdisposable, hresume⟩ := h.preflight_iff.mp hpreflight
  have hstack := h.hasStack hdisposable
  unfold Batos.executionDestroyTask
  rw [if_neg (by rw [hpreflight]; decide)]
  -- the runqueue
  rcases h.runqueueRemove_cases t with ⟨-, hnot⟩ | ⟨queue, hremove, hmem, hholds, hinit, hnodup⟩
  · exact absurd hdisposable.queued hnot
  have h₁ := h.runqueueRemove t
  rw [hremove] at h₁ ⊢
  rw [Call.andThen_zero]
  set k₁ : Kernel := { k with sched := { k.sched with runqueue := queue } } with hk₁
  -- the list of the process
  rcases h₁.robust.processDetachTask_cases p t with
    ⟨code, -, -, hnot⟩ | ⟨index, items, rest, hdetach, -, hrep, hrest, hperm, hcons, -⟩
  · exact absurd hdisposable.attached hnot
  have h₂ := h₁.robust.processDetachTask p t
  rw [hdetach] at h₂ ⊢
  rw [Call.andThen_zero]
  set k₂ : Kernel := (k₁.setProcess p { k₁.processes p with
    tasks := (k₁.processes p).tasks.removeAt index }).setTask t
      { k₁.task t with process := none } with hk₂
  have htask₂ : k₂.task t = { k.task t with process := none } := update_self _ _ _
  -- the slot of the registry
  have hcontains₂ : taskRegistryContains k₂ t = true := by
    rw [← hdisposable.registered]
    unfold taskRegistryContains
    rw [htask₂]
    rfl
  rcases h₂.robust.taskRegistryUnregister_cases t with ⟨-, hnot⟩ | ⟨slot, hid, hslot, hunregister⟩
  · rw [hcontains₂] at hnot
    cases hnot
  have h₃ := h₂.robust.taskRegistryUnregister t
  rw [hunregister] at h₃ ⊢
  rw [Call.andThen_zero]
  set k₃ : Kernel := { k₂ with taskRegistry := k₂.taskRegistry.erase slot } with hk₃
  have htask₃ : k₃.task t = { k.task t with process := none } := htask₂
  rw [htask₂] at hid
  have hfind : (k.taskRegistry.erase slot).find (k.task t).id.toNat = none := by
    rw [IdTable.find_of_slotOf (IdTable.slotOf_eq_some.mpr hid), IdTable.slots_erase, if_pos rfl]
  have hregistered₃ : taskRegistryContains k₃ t = false := by
    unfold taskRegistryContains
    rw [htask₃]
    show (_ && decide ((k.taskRegistry.erase slot).find (k.task t).id.toNat = some t)) = false
    rw [hfind]
    simp
  have hitems : queue.items = k.sched.runqueue.items.erase t := hholds.items_eq
  have hgone : t ∉ k.sched.runqueue.items.erase t := fun hin => (hnodup.mem_erase_iff.mp hin).1 rfl
  have hqueued₃ : k₃.sched.runqueue.contains t = false := by
    rw [← Bool.not_eq_true]
    show ¬ queue.contains t = true
    rw [hholds.contains_iff]
    exact hgone
  -- the stack
  obtain ⟨v, hdestroy, hused, hlookup⟩ := h₃.robust.taskDestroy_of_hasStack
    (by rw [htask₃]; exact hstack.of_record rfl) (by rw [htask₃]; exact hdisposable.ready)
    hdisposable.idle
    (by rw [htask₃]; exact hresume) (by rw [htask₃]; exact hdisposable.waitQueue)
    (by rw [htask₃]) hqueued₃
    hregistered₃
  rw [htask₃] at hdestroy hused hlookup
  rw [hdestroy, Call.andThen_zero]
  refine ⟨_, rfl, ?_⟩
  refine
    { runqueue := ⟨hmem, hitems, fun hin => hgone (hitems ▸ hin)⟩
      tasks := update_idem ..
      sched := rfl
      registry := ⟨slot, hid, hslot, rfl⟩
      unregistered := ?_
      list := ⟨items, rest, hrep, ?_, hperm, (List.nodup_cons.mp hcons).1⟩
      processes := ?_
      processRegistry := rfl
      lifecycle := rfl
      mappings := fun va => ?_
      frames := ⟨fun page => (hstack.releases page).used, hused⟩ }
  · have hlast : (k₃.refit v t (Task.reclaimed { k.task t with process := none })).task t =
        Task.reclaimed { k.task t with process := none } := Kernel.task_refit ..
    unfold taskRegistryContains
    rw [hlast]
    show (_ && decide ((k.taskRegistry.erase slot).find (k.task t).id.toNat = some t)) = false
    rw [hfind]
    simp
  · show (update k.processes p _ p).tasks.Represents rest
    rw [update_self]
    exact hrest
  · show update k.processes p _ = update k.processes p
      { k.processes p with tasks := (update k.processes p _ p).tasks }
    rw [update_self]
  · refine ⟨fun hon => ?_, fun hoff => ?_⟩
    · rw [← Option.not_isSome_iff_eq_none, vmmTranslate_isSome]
      show ¬ (v.paging.tables.lookup platform.root va).isSome = true
      rw [(hlookup va).1 hon]
      exact nofun
    · exact vmmTranslate_congr ((hlookup va).2 hoff)

/-- The process has no tasks left, and can go as well. -/
theorem Kernel.Robust.processRetire (h : k.Robust platform) (hmem : k.processRegistry.Mem p)
    (hactive : (k.processes p).state = .active) (hempty : (k.processes p).tasks.count = 0) :
    ∃ index, k.processRegistry.slots index = some p ∧
      (Call.andThen (Batos.processTerminate k p) (Kernel.fail (-3)) fun k =>
        Call.andThen (Batos.processDestroy k p) (Kernel.fail (-4)) fun k => (0, k)) =
        (0, { k with processRegistry := k.processRegistry.erase index }.setProcess p {}) := by
  have hcontains := (h.enrolled.contains_iff p).mpr hmem
  have hterminate : Batos.processTerminate k p =
      (0, k.setProcess p { k.processes p with state := .terminated }) := by
    rw [Batos.processTerminate, if_neg (by rw [hcontains]; decide), Batos.processTransition,
      if_neg (by rw [hactive]; decide), if_neg (fun hno => by rw [hcontains] at hno; cases hno.2)]
  have h₁ := h.processTerminate p
  rw [hterminate] at h₁ ⊢
  rw [Call.andThen_zero]
  set k₁ : Kernel := k.setProcess p { k.processes p with state := .terminated } with hk₁
  have hself : k₁.processes p = { k.processes p with state := .terminated } := update_self _ _ _
  rcases h₁.robust.enrolled.destroy h₁.robust.processes p with
    ⟨code, -, -, hnot⟩ | ⟨index, hslot, -, hdestroy⟩
  · exact absurd ⟨hmem, by rw [hself], by rw [hself]; exact hempty⟩ hnot
  · rw [hdestroy, Call.andThen_zero]
    refine ⟨index, hslot, ?_⟩
    rw [hk₁]
    simp only [Kernel.setProcess, update_idem]

/-- **`execution_destroy_kernel_task`** fails before it has done anything, or succeeds; then
the process is unregistered and cleared as well. -/
theorem Kernel.Robust.executionDestroyKernelTask_cases (h : k.Robust platform) (p : ProcessRef)
    (t : TaskRef) :
    Batos.executionDestroyKernelTask k p t = (-1, k) ∨
      executionPreflightDestroyTask k p t = true ∧
        ∃ k' index, k.Destroyed platform k' p t ∧ k.processRegistry.slots index = some p ∧
          Batos.executionDestroyKernelTask k p t =
            (0, { k' with processRegistry := k'.processRegistry.erase index }.setProcess p {}) := by
  cases hpreflight : executionPreflightDestroyKernelTask k p t with
  | false => exact .inl (if_pos hpreflight)
  | true =>
  have hall := hpreflight
  simp only [executionPreflightDestroyKernelTask, Bool.and_eq_true, decide_eq_true_eq] at hall
  obtain ⟨⟨htask, hactive⟩, hcount⟩ := hall
  refine .inr ⟨htask, ?_⟩
  have hkept := h.executionDestroyTask p t
  rcases h.executionDestroyTask_cases p t with ⟨hnot, -⟩ | ⟨-, k', heq, hdestroyed⟩
  · rw [htask] at hnot
    cases hnot
  rw [heq] at hkept
  have hprocess : k'.processes p = { k.processes p with tasks := (k'.processes p).tasks } := by
    rw [hdestroyed.processes, update_self]
  have hempty : (k'.processes p).tasks.count = 0 := by
    obtain ⟨items, rest, hrep, hrest, hperm, -⟩ := hdestroyed.list
    have hlength := hperm.length_eq
    rw [← hrep.count, hcount, List.length_cons] at hlength
    rw [hrest.count]
    omega
  have hmem : k'.processRegistry.Mem p := by
    rw [hdestroyed.processRegistry]
    exact h.registered t p (h.preflight_iff.mp htask).1.attached
  obtain ⟨index, hslot, hretire⟩ :=
    hkept.robust.processRetire hmem (by rw [hprocess]; exact hactive) hempty
  refine ⟨k', index, hdestroyed, hdestroyed.processRegistry ▸ hslot, ?_⟩
  unfold Batos.executionDestroyKernelTask
  rw [if_neg (by rw [hpreflight]; decide), heq, Call.andThen_zero]
  exact hretire

/-- **Destruction is all or nothing.**  In every state a run can reach, whatever the callers
do, and for all arguments: `execution_destroy_task` returns -1 and leaves the kernel as it is,
or it returns 0 and the task is gone.  `execution_destroy_kernel_task` does the same, and
takes the process along. -/
theorem destruction_all_or_nothing (platform : Platform) {m : KernelMachine}
    (hm : (unguardedSystem platform).Reachable (boot platform) m)
    (p : ProcessRef) (t : TaskRef) :
    (executionDestroyTask m.kernel p t = (-1, m.kernel) ∨
      ∃ k', executionDestroyTask m.kernel p t = (0, k') ∧ m.kernel.Destroyed platform k' p t) ∧
    (executionDestroyKernelTask m.kernel p t = (-1, m.kernel) ∨
      ∃ k' index, m.kernel.Destroyed platform k' p t ∧
      m.kernel.processRegistry.slots index = some p ∧
        executionDestroyKernelTask m.kernel p t =
          (0, { k' with processRegistry := k'.processRegistry.erase index }.setProcess p {})) := by
  have hrobust := KernelMachine.robust_of_reachable hm
  constructor
  · rcases hrobust.executionDestroyTask_cases p t with ⟨-, heq⟩ | ⟨-, hdone⟩
    · exact .inl heq
    · exact .inr hdone
  · rcases hrobust.executionDestroyKernelTask_cases p t with heq | ⟨-, hdone⟩
    · exact .inl heq
    · exact .inr hdone

/-- The first kernel task can be destroyed together with its process. -/
theorem destruction_all_or_nothing_demo :
    (executionDestroyKernelTask demoUnit.kernel 5 7).1 = 0 ∧
      ∃ k' index, demoUnit.kernel.Destroyed demoPlatform k' 5 7 ∧
        demoUnit.kernel.processRegistry.slots index = some 5 ∧
        executionDestroyKernelTask demoUnit.kernel 5 7 =
          (0, { k' with processRegistry := k'.processRegistry.erase index }.setProcess 5 {}) := by
  have hreach : (unguardedSystem demoPlatform).Reachable (boot demoPlatform) demoUnit := by
    rw [demoUnit]
    exact ⟨[.kernel (.createKernelTask 5 7 1 1 0x2000 0x400 0)], ⟨⟨rfl, trivial⟩, trivial⟩, rfl⟩
  have hcode : (executionDestroyKernelTask demoUnit.kernel 5 7).1 = 0 := by decide +kernel
  refine ⟨hcode, (destruction_all_or_nothing demoPlatform hreach 5 7).2.resolve_left
    fun hfailed => ?_⟩
  rw [hfailed] at hcode
  cases hcode

/-! ## The past of a task -/

/-- What has happened to a task since it was built. -/
inductive Past
  /-- It has not had the CPU. -/
  | fresh
  | running
  /-- It has lost the CPU to the timer. -/
  | preempted
  /-- It has given the CPU up itself. -/
  | released
  deriving DecidableEq, Repr

/-- The kernel, and what its tasks have been through. -/
structure Chronicle where
  machine : KernelMachine
  past : TaskRef → Past := fun _ => .fresh

namespace Chronicle

/-- The record is kept along with every operation. -/
def step (layout : KernelLayout) (c : Chronicle) (op : UnguardedOp) : Chronicle where
  machine := op.step layout c.machine
  past u :=
    if ((op.step layout c.machine).kernel.task u).state = .running then .running
    else if op.builds layout c.machine.kernel = some u then .fresh
    else if (c.machine.kernel.task u).state = .running then
      if op.leaves = .interrupt then .preempted else .released
    else c.past u

/-- The record as far as the kernel can know it. -/
structure Inv (platform : Platform) (c : Chronicle) : Prop where
  robust : c.machine.kernel.Robust platform
  running : ∀ u, c.past u = .running ↔ (c.machine.kernel.task u).state = .running
  /-- The resume authority tells preemption from everything else. -/
  preempted : ∀ u, c.machine.kernel.sched.current ≠ some u →
    (c.machine.kernel.task u).state.suspended = true →
    ((c.machine.kernel.task u).resumeAuthority = .interrupt ↔ c.past u = .preempted)

end Chronicle

/-- The kernel in any hands, with the record. -/
def chronicleSystem (platform : Platform) : TransitionSystem Chronicle UnguardedOp where
  enabled c op := (unguardedSystem platform).enabled c.machine op
  step c op := c.step platform.layout op

namespace Chronicle.Inv

variable {c : Chronicle}

theorem step (h : c.Inv platform) {op : UnguardedOp} (hop : op.Enabled platform c.machine) :
    (c.step platform.layout op).Inv platform := by
  have hmoves := UnguardedOp.moves h.robust hop
  refine ⟨hmoves.robust, fun u => ?_, fun u hnot hwaits => ?_⟩
  · show (if _ then Past.running else _) = Past.running ↔ _
    have hrunning := h.running u
    split_ifs with hnow hbuilt hbefore htimer
    · exact iff_of_true rfl hnow
    · exact iff_of_false nofun hnow
    · exact iff_of_false nofun hnow
    · exact iff_of_false nofun hnow
    · rw [hrunning]
      exact iff_of_false hbefore hnow
  · have hnow : ((op.step platform.layout c.machine).kernel.task u).state ≠ .running := by
      intro hrunning
      rw [show ((c.step platform.layout op).machine.kernel.task u).state =
        .running from hrunning] at hwaits
      cases hwaits
    show _ ↔ (if _ then Past.running else _) = Past.preempted
    rw [if_neg hnow]
    rcases hmoves.waits u hnot hwaits with
      ⟨hbuilt, ⟨hidle, hwaited, hsame⟩ | ⟨hrunning, hauthority⟩⟩ | ⟨hbuilt, hauthority⟩
    · have hbefore : (c.machine.kernel.task u).state ≠ .running := by
        intro hrunning
        rw [hrunning] at hwaited
        cases hwaited
      rw [if_neg hbuilt, if_neg hbefore, ← h.preempted u hidle hwaited, ← hsame]
      rfl
    · rw [if_neg hbuilt, if_pos hrunning]
      show ((op.step platform.layout c.machine).kernel.task u).resumeAuthority = _ ↔ _
      rw [hauthority]
      split_ifs with htimer
      · exact iff_of_true htimer rfl
      · exact iff_of_false htimer nofun
    · rw [if_pos hbuilt]
      show ((op.step platform.layout c.machine).kernel.task u).resumeAuthority = _ ↔ _
      rw [hauthority]
      exact iff_of_false nofun nofun

theorem of_reachable
    (hc : (chronicleSystem platform).Reachable ⟨boot platform, fun _ => .fresh⟩ c) :
    c.Inv platform := by
  refine hc.induction (fun c => c.Inv platform) (fun c op h hop => ?_) ?_
  · exact h.step hop.2
  · refine ⟨robust_boot platform, fun u => ⟨nofun, nofun⟩, fun u _ hwaits => ?_⟩
    cases hwaits

/-- A task that is ready and has run waits for the CPU since the timer took it, or since it
gave it up. -/
theorem past_of_ready (h : c.Inv platform) (hready : (c.machine.kernel.task t).state = .ready) :
    c.past t = .fresh ∨ c.past t = .preempted ∨ c.past t = .released := by
  cases hpast : c.past t with
  | fresh => exact .inl rfl
  | running =>
      rw [(h.running t).mp hpast] at hready
      cases hready
  | preempted => exact .inr (.inl rfl)
  | released => exact .inr (.inr rfl)

end Chronicle.Inv

/-- Rollback spares what has run: a call succeeds only on a published task that is ready and
has not run since it was built, and one that is ready and has run is rejected. -/
def Chronicle.RollbackSpares (c : Chronicle) (p : ProcessRef) (t : TaskRef) : Prop :=
  ∀ destroy ∈ [executionDestroyTask, executionDestroyKernelTask],
    ((destroy c.machine.kernel p t).1 = 0 →
      (c.machine.kernel.task t).state = .ready ∧ taskRegistryContains c.machine.kernel t = true ∧
        (c.machine.kernel.task t).process = some p ∧ t ∈ c.machine.kernel.sched.runqueue.items ∧
        c.past t = .fresh) ∧
    ((c.machine.kernel.task t).state = .ready → c.past t ≠ .fresh →
      destroy c.machine.kernel p t = (-1, c.machine.kernel))

/-- **When rollback spares a task.**  In every state a run can reach and for all arguments:
exactly when the task has not given up the CPU itself, or the call is refused for another
reason. -/
theorem rollback_spares_iff (platform : Platform) {c : Chronicle}
    (hc : (chronicleSystem platform).Reachable ⟨boot platform, fun _ => .fresh⟩ c)
    (p : ProcessRef) (t : TaskRef) :
    c.RollbackSpares p t ↔ ¬ (c.past t = .released ∧ c.machine.kernel.Disposable p t) := by
  have hinv := Chronicle.Inv.of_reachable hc
  have hrobust := hinv.robust
  constructor
  · rintro hspares ⟨hpast, hdisposable⟩
    have hresume : (c.machine.kernel.task t).resumeAuthority ≠ .interrupt := by
      rw [Ne, hinv.preempted t hdisposable.idle (by rw [hdisposable.ready]; rfl), hpast]
      exact nofun
    rcases hrobust.executionDestroyTask_cases p t with ⟨hnot, -⟩ | ⟨-, k', heq, -⟩
    · rw [hrobust.preflight_iff.mpr ⟨hdisposable, hresume⟩] at hnot
      cases hnot
    · obtain ⟨-, -, -, -, hfresh⟩ := (hspares executionDestroyTask (by simp)).1 (by rw [heq])
      rw [hpast] at hfresh
      cases hfresh
  · intro hnot
    -- whatever passes the preflight has not run
    have hpreflight : executionPreflightDestroyTask c.machine.kernel p t = true →
        c.machine.kernel.Disposable p t ∧ c.past t = .fresh := by
      intro hpreflight
      obtain ⟨hdisposable, hresume⟩ := hrobust.preflight_iff.mp hpreflight
      refine ⟨hdisposable, ?_⟩
      rcases hinv.past_of_ready hdisposable.ready with hfresh | hpreempted | hreleased
      · exact hfresh
      · rw [← hinv.preempted t hdisposable.idle (by rw [hdisposable.ready]; rfl)] at hpreempted
        exact absurd hpreempted hresume
      · exact absurd ⟨hreleased, hdisposable⟩ hnot
    have hspares : ∀ {call : Call},
        (call = (-1, c.machine.kernel) ∨
        executionPreflightDestroyTask c.machine.kernel p t = true) →
        (call.1 = 0 → (c.machine.kernel.task t).state = .ready ∧
          taskRegistryContains c.machine.kernel t = true ∧
          (c.machine.kernel.task t).process = some p ∧
          t ∈ c.machine.kernel.sched.runqueue.items ∧ c.past t = .fresh) ∧
        ((c.machine.kernel.task t).state = .ready → c.past t ≠ .fresh →
          call = (-1, c.machine.kernel)) := by
      rintro call (rfl | hpassed)
      · exact ⟨fun hcode => absurd hcode (by norm_num), fun _ _ => rfl⟩
      · obtain ⟨hdisposable, hfresh⟩ := hpreflight hpassed
        exact ⟨fun _ => ⟨hdisposable.ready, hdisposable.registered, hdisposable.attached,
          hdisposable.queued, hfresh⟩, fun _ hrun => absurd hfresh hrun⟩
    intro destroy hdestroy
    rcases List.mem_pair.mp hdestroy with rfl | rfl
    · refine hspares ?_
      rcases hrobust.executionDestroyTask_cases p t with ⟨-, heq⟩ | ⟨hpassed, -⟩
      · exact .inl heq
      · exact .inr hpassed
    · refine hspares ?_
      rcases hrobust.executionDestroyKernelTask_cases p t with heq | ⟨hpassed, -⟩
      · exact .inl heq
      · exact .inr hpassed

/-- A machine on which nothing has happened. -/
def demoDawn : Chronicle := ⟨boot demoPlatform, fun _ => .fresh⟩

/-- The first kernel task is built. -/
def demoBuilt : Chronicle :=
  (chronicleSystem demoPlatform).run demoDawn [.kernel (.createKernelTask 5 7 1 1 0x2000 0x400 0)]

/-- A task that has not run may be destroyed. -/
theorem rollback_spares_demo :
    (executionDestroyTask demoBuilt.machine.kernel 5 7).1 = 0 ∧ demoBuilt.RollbackSpares 5 7 := by
  have hreach : (chronicleSystem demoPlatform).Reachable demoDawn demoBuilt :=
    ⟨[.kernel (.createKernelTask 5 7 1 1 0x2000 0x400 0)], ⟨⟨rfl, trivial⟩, trivial⟩, rfl⟩
  have hpast : demoBuilt.past 7 = .fresh := by decide +kernel
  refine ⟨by decide +kernel, (rollback_spares_iff demoPlatform hreach 5 7).mpr fun hreleased => ?_⟩
  rw [hpast] at hreleased
  cases hreleased.1

/-- The first task of a process starts, and yields to the second. -/
def demoRelayOps : List UnguardedOp :=
  [.kernel (.createKernelTask 5 7 1 1 0x2000 0x400 0), .kernel (.createTask 5 8 2 0x2000 0x400 0),
    .kernel .start, .kernel (.yield {})]

/-- The two tasks, and their past. -/
def demoRelay : Chronicle := (chronicleSystem demoPlatform).run demoDawn demoRelayOps

/-- **A task that has run is destroyed.**  It has yielded, is ready, and the call succeeds. -/
theorem yielded_task_destroyed :
    (chronicleSystem demoPlatform).Reachable demoDawn demoRelay ∧ demoRelay.past 7 = .released ∧
      (demoRelay.machine.kernel.task 7).state = .ready ∧
      (executionDestroyTask demoRelay.machine.kernel 5 7).1 = 0 ∧
      ¬ demoRelay.RollbackSpares 5 7 := by
  have hpast : demoRelay.past 7 = .released := by decide +kernel
  have hcode : (executionDestroyTask demoRelay.machine.kernel 5 7).1 = 0 := by decide +kernel
  refine ⟨⟨demoRelayOps, ⟨⟨rfl, trivial⟩, ⟨?_, trivial⟩, ⟨?_, trivial⟩, ⟨?_, trivial⟩, trivial⟩,
    rfl⟩, hpast, ?_, hcode, fun hspares => ?_⟩
  · decide +kernel
  · decide +kernel
  · decide +kernel
  · decide +kernel
  · obtain ⟨-, -, -, -, hfresh⟩ := (hspares executionDestroyTask (by simp)).1 hcode
    rw [hpast] at hfresh
    cases hfresh

end Batos
