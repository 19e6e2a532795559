import Batos.Process.Passing
import Batos.Process.Publication
import Batos.Process.Stacks
import Batos.Sched.Window

/-!
# The kernel in any hands

The runs of `Process.System` ask one thing of the callers: that a constructor gets a task
object nobody uses.  The code does not check it, and here nobody promises it.  A task may be
given to `task_create` while it is queued, running, blocked or waiting for the reaper, a wait
queue may be initialised while tasks are in it, and the building blocks may be called on
their own.  Afterwards a task may be in two slots of the registry, in the lists of two
processes, or in a queue it knows nothing of.

`Kernel.Robust` is what is left of the invariant then.  Each part of it concerns one
subsystem: the runqueue and the lists of the processes hold no task twice, the counts of the
registries are right, a task that names a process is in its list, a task that names a stack
names the slot of its id, and the window of the stacks holds single pages of clients.  The
other direction of each of these is lost.

Every call keeps it, because every building block does (`Kernel.Keeps`), and none of the
building blocks but `task_create` puts a task into a state in which it waits for the CPU.
-/

namespace Batos

open Function

variable {task : Task} {call : Call} {recover next : Kernel → Call} {s : Sched} {process : Process}
  {m : KernelMachine}

/-! ## What is never lost -/

/-- The invariant of a kernel whose callers promise nothing. -/
structure Kernel.Robust (platform : Platform) (k : Kernel) : Prop where
  runqueue : ∃ ready, k.sched.Queued ready
  enrolled : k.Enrolled
  processes : k.processRegistry.Counted
  /-- A task that names a process is in its list. -/
  lists : ∀ p, ∃ items, (k.processes p).tasks.Represents items ∧ items.Nodup ∧
    ∀ t, (k.task t).process = some p → t ∈ items
  registered : ∀ t p, (k.task t).process = some p → k.processRegistry.Mem p
  initialized : k.taskRegistry.initialized = true
  counted : k.taskRegistry.Counted
  /-- A task that names a stack names the slot of its id. -/
  stack : ∀ t, (k.task t).kernelStackBase ≠ 0 → (k.task t).id ≠ 0 ∧
    (k.task t).id.toNat ≤ taskMaxTasks ∧ (k.task t).addressSpace = platform.root ∧
    (k.task t).kernelStackBase = taskStackVirtualFor platform.layout.toTaskLayout (k.task t).id
  /-- A task without a stack is not alive. -/
  bare : ∀ t, (k.task t).kernelStackBase = 0 → (k.task t).state.dormant = true
  memory : platform.Backs k.vmm
  small : SmallPages platform.root platform.layout.window k.vmm.paging

/-- The kernel is as robust as before, the CPU is where it was, and a task is as ready to run
as it was, or has ended. -/
structure Kernel.Keeps (platform : Platform) (k k' : Kernel) : Prop where
  robust : k'.Robust platform
  current : k'.sched.current = k.sched.current
  places : ∀ u, (k'.task u).state = .terminated ∨ ((k'.task u).state = (k.task u).state ∧
    (k'.task u).resumeAuthority = (k.task u).resumeAuthority)

variable {platform : Platform} {k k' : Kernel} {p : ProcessRef} {t : TaskRef}

namespace Kernel.Keeps

theorem refl (h : k.Robust platform) : k.Keeps platform k := ⟨h, rfl, fun _ => .inr ⟨rfl, rfl⟩⟩

theorem trans {k₁ : Kernel} (h : k.Keeps platform k₁) (h' : k₁.Keeps platform k') :
    k.Keeps platform k' := by
  refine ⟨h'.robust, h'.current.trans h.current, fun u => ?_⟩
  rcases h'.places u with hended | ⟨hstate, hauthority⟩
  · exact .inl hended
  rcases h.places u with hended | ⟨hstate₁, hauthority₁⟩
  · exact .inl (hstate.trans hended)
  · exact .inr ⟨hstate.trans hstate₁, hauthority.trans hauthority₁⟩

/-- The tasks are the same ones. -/
theorem of_sched_eq (h : k'.Robust platform) (hsched : k'.sched = k.sched) :
    k.Keeps platform k' := by
  refine ⟨h, by rw [hsched], fun u => .inr ?_⟩
  show (k'.sched.tasks u).state = _ ∧ (k'.sched.tasks u).resumeAuthority = _
  rw [hsched]
  exact ⟨rfl, rfl⟩

/-- A task object is written, and the task is where it was, or has ended. -/
theorem of_update (h : k'.Robust platform) (htasks : k'.sched.tasks = update k.sched.tasks t task)
    (hcurrent : k'.sched.current = k.sched.current)
    (hplace : task.state = .terminated ∨ (task.state = (k.task t).state ∧ task.resumeAuthority =
      (k.task t).resumeAuthority)) :
    k.Keeps platform k' := by
  refine ⟨h, hcurrent, ?_⟩
  show ∀ u, (k'.sched.tasks u).state = .terminated ∨ ((k'.sched.tasks u).state = (k.task u).state ∧
    (k'.sched.tasks u).resumeAuthority = (k.task u).resumeAuthority)
  rw [htasks]
  exact (forall_update_iff k.sched.tasks fun u x => x.state = .terminated ∨
    (x.state = (k.task u).state ∧ x.resumeAuthority = (k.task u).resumeAuthority)).mpr
    ⟨hplace, fun _ _ => .inr ⟨rfl, rfl⟩⟩

/-- What both calls keep, the one after the other keeps. -/
theorem andThen (hcall : k.Keeps platform call.2)
    (hrecover : ∀ k : Kernel, k.Robust platform → k.Keeps platform (recover k).2)
    (hnext : ∀ k : Kernel, k.Robust platform → k.Keeps platform (next k).2) :
    k.Keeps platform (call.andThen recover next).2 :=
  Call.andThen_rule (k.Keeps platform ·) (fun call => k.Keeps platform call.2) hcall
    (fun k₁ h₁ => h₁.trans (hrecover k₁ h₁.robust)) fun k₁ h₁ => h₁.trans (hnext k₁ h₁.robust)

/-- A call that gives up when the first one fails. -/
theorem orFail {code : ℤ} (hcall : k.Keeps platform call.2)
    (hnext : ∀ k : Kernel, k.Robust platform → k.Keeps platform (next k).2) :
    k.Keeps platform (call.andThen (Kernel.fail code) next).2 :=
  hcall.andThen (fun _ h => .refl h) hnext

theorem rolledBack (hcall : k.Keeps platform call.2) (broken failed : ℤ) :
    k.Keeps platform (call.rolledBack broken failed).2 := hcall.orFail fun _ h => .refl h

end Kernel.Keeps

namespace Kernel.Robust

/-! ## Elementary changes -/

/-- The scheduler has worked. -/
theorem resched (h : k.Robust platform) (hqueued : ∃ ready, s.Queued ready)
    (hidentity : ∀ u, (s.tasks u).identity = (k.task u).identity)
    (hdormant : ∀ u, (k.task u).state.dormant = true → (s.tasks u).state.dormant = true) :
    Kernel.Robust platform { k with sched := s } := by
  have hfield : ∀ {α : Type} (field : Task → α) u,
      field (s.tasks u).identity = field (k.task u).identity :=
      fun field u => congrArg field (hidentity u)
  have hprocess : ∀ u, (s.tasks u).process = (k.task u).process := hfield Task.process
  refine { h with
    runqueue := hqueued
    enrolled := ⟨h.enrolled.initialized, h.enrolled.keyed⟩
    lists := fun p => ?_
    registered := fun u p hu => h.registered u p ((hprocess u).symm.trans hu)
    stack := fun u hu => ?_
    bare := fun u hu => hdormant u (h.bare u ((hfield Task.kernelStackBase u).symm.trans hu)) }
  · obtain ⟨items, hrep, hnodup, hitems⟩ := h.lists p
    exact ⟨items, hrep, hnodup, fun u hu => hitems u ((hprocess u).symm.trans hu)⟩
  · have hid : (s.tasks u).id = (k.task u).id := hfield Task.id u
    have hspace : (s.tasks u).addressSpace = (k.task u).addressSpace := hfield Task.addressSpace u
    have hbase : (s.tasks u).kernelStackBase = (k.task u).kernelStackBase :=
      hfield Task.kernelStackBase u
    show (s.tasks u).id ≠ 0 ∧ _
    rw [hid, hspace, hbase]
    exact h.stack u (hbase ▸ hu)

/-- The queue of the reaper is nobody's business here. -/
theorem relifecycle (h : k.Robust platform) (queue : TaskQueue) :
    Kernel.Robust platform { k with lifecycle := queue } :=
  { h with enrolled := ⟨h.enrolled.initialized, h.enrolled.keyed⟩ }

/-- Memory moves on, and a task object is overwritten by one that names no process. -/
theorem refit (h : k.Robust platform) {v : Vmm} (hv : platform.Backs v)
    (hsmall : SmallPages platform.root platform.layout.window v.paging)
    (hprocess : task.process = none ∨ task.process = (k.task t).process)
    (hstack : task.kernelStackBase ≠ 0 → task.id ≠ 0 ∧ task.id.toNat ≤ taskMaxTasks ∧
      task.addressSpace = platform.root ∧ task.kernelStackBase =
        taskStackVirtualFor platform.layout.toTaskLayout task.id)
    (hbare : task.kernelStackBase = 0 → task.state.dormant = true) :
    (k.refit v t task).Robust platform := by
  have hmembers : ∀ u p, ((k.refit v t task).task u).process = some p →
      (k.task u).process = some p := by
    refine (forall_update_iff k.sched.tasks
      fun u x => ∀ p, x.process = some p → (k.task u).process = some p).mpr
      ⟨fun p hp => ?_, fun _ _ _ hu => hu⟩
    rcases hprocess with hnone | hsame
    · rw [hnone] at hp
      cases hp
    · exact hsame.symm.trans hp
  refine { h with
    runqueue := ?_
    enrolled := ⟨h.enrolled.initialized, h.enrolled.keyed⟩
    lists := fun p => ?_
    registered := fun u p hu => h.registered u p (hmembers u p hu)
    stack := ?_
    bare := ?_
    memory := hv
    small := hsmall }
  · obtain ⟨ready, hqueued⟩ := h.runqueue
    exact ⟨ready, hqueued.initialized, hqueued.runqueue⟩
  · obtain ⟨items, hrep, hnodup, hitems⟩ := h.lists p
    exact ⟨items, hrep, hnodup, fun u hu => hitems u (hmembers u p hu)⟩
  · exact (forall_update_iff k.sched.tasks fun _ (x : Task) => x.kernelStackBase ≠ 0 → x.id ≠ 0 ∧
      x.id.toNat ≤ taskMaxTasks ∧ x.addressSpace = platform.root ∧
      x.kernelStackBase = taskStackVirtualFor platform.layout.toTaskLayout x.id).mpr
      ⟨hstack, fun u _ => h.stack u⟩
  · exact (forall_update_iff k.sched.tasks fun _ (x : Task) => x.kernelStackBase = 0 →
      x.state.dormant = true).mpr ⟨hbare, fun u _ => h.bare u⟩

/-- Everything about a process but its list may change, as long as it keeps its id. -/
theorem restate (h : k.Robust platform) (hid : process.id = (k.processes p).id)
    (htasks : process.tasks = (k.processes p).tasks) :
    (k.setProcess p process).Robust platform := by
  have hids : ∀ q, ((k.setProcess p process).processes q).id = (k.processes q).id :=
    (forall_update_iff k.processes fun q x => x.id = (k.processes q).id).mpr
      ⟨hid, fun _ _ => rfl⟩
  have hlists : ∀ q, ((k.setProcess p process).processes q).tasks = (k.processes q).tasks :=
    (forall_update_iff k.processes fun q x => x.tasks = (k.processes q).tasks).mpr
      ⟨htasks, fun _ _ => rfl⟩
  refine { h with
    enrolled := ⟨h.enrolled.initialized, h.enrolled.keyed.congr fun q _ =>
      congrArg BitVec.toNat (hids q)⟩
    lists := fun q => ?_ }
  rw [hlists q]
  exact h.lists q

/-- Nobody notices what happens to a process that is not registered. -/
theorem setProcess (h : k.Robust platform) (hp : ¬ k.processRegistry.Mem p)
    (htasks : process.tasks = .empty) : (k.setProcess p process).Robust platform := by
  refine { h with
    enrolled := h.enrolled.setProcess hp process
    lists := fun q => ?_ }
  by_cases hq : q = p
  · subst hq
    have hself : (k.setProcess q process).processes q = process := update_self _ _ _
    rw [hself, htasks]
    exact ⟨[], .empty, List.nodup_nil, fun u hu => absurd (h.registered u q hu) hp⟩
  · rw [show (k.setProcess p process).processes q = k.processes q from update_of_ne hq _ _]
    exact h.lists q

/-- A task joins or leaves a process. -/
theorem relist (h : k.Robust platform) {tasks : DenseArray TaskRef} {items : List TaskRef}
    {process : Option ProcessRef} (hrep : tasks.Represents items) (hnodup : items.Nodup)
    (hothers : ∀ u, u ≠ t → (k.task u).process = some p → u ∈ items)
    (hprocess : ∀ q, process = some q → q = p ∧ t ∈ items ∧ k.processRegistry.Mem p) :
    ((k.setProcess p { k.processes p with tasks := tasks }).setTask t
      { k.task t with process := process }).Robust platform := by
  set k₁ := (k.setProcess p { k.processes p with tasks := tasks }).setTask t
    { k.task t with process := process } with hk₁
  have hid : ∀ q, (k₁.processes q).id = (k.processes q).id :=
    (forall_update_iff k.processes fun q x => x.id = (k.processes q).id).mpr
      ⟨rfl, fun _ _ => rfl⟩
  have htask : ∀ u, u ≠ t → k₁.task u = k.task u := fun u hu => update_of_ne hu _ _
  have hself : k₁.task t = { k.task t with process := process } := update_self _ _ _
  refine { h with
    enrolled := ⟨h.enrolled.initialized, h.enrolled.keyed.congr fun q _ =>
      congrArg BitVec.toNat (hid q)⟩
    lists := fun q => ?_
    registered := fun u q hu => ?_
    runqueue := ?_
    stack := ?_
    bare := ?_ }
  · obtain ⟨ready, hqueued⟩ := h.runqueue
    exact ⟨ready, hqueued.initialized, hqueued.runqueue⟩
  · by_cases hq : q = p
    · subst hq
      have hlist : k₁.processes q = { k.processes q with tasks := tasks } := update_self _ _ _
      rw [hlist]
      refine ⟨items, hrep, hnodup, fun u hu => ?_⟩
      by_cases hut : u = t
      · subst hut
        rw [hself] at hu
        exact (hprocess q hu).2.1
      · rw [htask u hut] at hu
        exact hothers u hut hu
    · obtain ⟨items', hrep', hnodup', hitems'⟩ := h.lists q
      rw [show k₁.processes q = k.processes q from update_of_ne hq _ _]
      refine ⟨items', hrep', hnodup', fun u hu => ?_⟩
      by_cases hut : u = t
      · subst hut
        rw [hself] at hu
        exact absurd (hprocess q hu).1 hq
      · rw [htask u hut] at hu
        exact hitems' u hu
  · by_cases hut : u = t
    · subst hut
      rw [hself] at hu
      obtain ⟨rfl, -, hmem⟩ := hprocess q hu
      exact hmem
    · rw [htask u hut] at hu
      exact h.registered u q hu
  · exact (forall_update_iff k.sched.tasks fun _ (x : Task) => x.kernelStackBase ≠ 0 → x.id ≠ 0 ∧
      x.id.toNat ≤ taskMaxTasks ∧ x.addressSpace = platform.root ∧
      x.kernelStackBase = taskStackVirtualFor platform.layout.toTaskLayout x.id).mpr
      ⟨h.stack t, fun u _ => h.stack u⟩
  · exact (forall_update_iff k.sched.tasks fun _ (x : Task) => x.kernelStackBase = 0 →
      x.state.dormant = true).mpr ⟨h.bare t, fun u _ => h.bare u⟩

end Kernel.Robust

/-- The scheduler has worked, and moved no task. -/
theorem Kernel.Robust.keeps_resched (h : k.Robust platform) {ready : List TaskRef}
    (hqueued : s.Queued ready) (htasks : s.tasks = k.sched.tasks)
    (hcurrent : s.current = k.sched.current) :
    k.Keeps platform { k with sched := s } := by
  have hsame : ∀ u, s.tasks u = k.task u := fun u => congrFun htasks u
  refine ⟨h.resched ⟨ready, hqueued⟩
    (fun u => by rw [hsame u]) fun u hu => by rw [hsame u]; exact hu,
    hcurrent, fun u => .inr ?_⟩
  show (s.tasks u).state = _ ∧ (s.tasks u).resumeAuthority = _
  rw [hsame u]
  exact ⟨rfl, rfl⟩

/-! ## The building blocks -/

/-- Publishing a task concerns nobody but the reaper. -/
theorem lifecyclePublishTerminatedTask_eq (k : Kernel) (t : TaskRef) : ∃ code queue,
    lifecyclePublishTerminatedTask k t = (code, { k with lifecycle := queue }) := by
  unfold lifecyclePublishTerminatedTask
  split_ifs
  · exact ⟨_, k.lifecycle, rfl⟩
  · exact ⟨_, k.lifecycle, rfl⟩
  · exact ⟨_, k.lifecycle, rfl⟩
  · exact ⟨_, k.lifecycle, rfl⟩
  · exact ⟨_, k.lifecycle, rfl⟩
  · exact ⟨_, k.lifecycle, rfl⟩
  · exact ⟨_, _, rfl⟩

namespace Kernel.Robust

/-- `process_transition` keeps the list of the process. -/
theorem processTransition (h : k.Robust platform) (p : ProcessRef) (target : ProcessState) :
    k.Keeps platform (processTransition k p target).2 := by
  unfold Batos.processTransition
  split_ifs
  · exact .refl h
  · exact .refl h
  · exact .of_sched_eq (h.restate rfl rfl) rfl

theorem processTerminate (h : k.Robust platform) (p : ProcessRef) :
    k.Keeps platform (processTerminate k p).2 := by
  unfold Batos.processTerminate
  split_ifs
  · exact .refl h
  · exact h.processTransition p .terminated

/-- `process_create` enrols a process without tasks. -/
theorem processCreate (h : k.Robust platform) (p : ProcessRef) (pid addressSpace : Word) :
    k.Keeps platform (processCreate k p pid addressSpace).2 := by
  rcases h.enrolled.create p pid addressSpace with
    ⟨code, k', -, heq, rfl | ⟨hmem, rfl⟩⟩ | ⟨index, hmem, hfree, hid, -, -, heq⟩ <;> rw [heq]
  · exact .refl h
  · exact .of_sched_eq (h.setProcess hmem rfl) rfl
  · have hnamed : Kernel.Robust platform (k.setProcess p
        { id := pid, state := .active, addressSpace := addressSpace }) := h.setProcess hmem rfl
    refine .of_sched_eq { hnamed with
      enrolled := ⟨h.enrolled.initialized, hnamed.enrolled.keyed.insert ?_⟩
      processes := h.processes.insert hfree p
      registered := fun u q hu => ?_ } rfl
    · rw [show (k.setProcess p _).processes p = _ from update_self _ _ _]
      exact hid
    · exact (IdTable.mem_insert_of_free hfree).mpr (.inr (h.registered u q hu))

/-- `process_destroy` strikes off a process that nobody names. -/
theorem processDestroy (h : k.Robust platform) (p : ProcessRef) :
    k.Keeps platform (processDestroy k p).2 := by
  rcases h.enrolled.destroy h.processes p with
    ⟨code, -, heq, -⟩ | ⟨index, hslot, hempty, heq⟩ <;> rw [heq]
  · exact .refl h
  have hmem : ∀ q, (k.processRegistry.erase index).Mem q ↔ k.processRegistry.Mem q ∧ q ≠ p :=
    fun q => h.enrolled.keyed.mem_erase hslot
  have herased : Kernel.Robust platform
      { k with processRegistry := k.processRegistry.erase index } := by
    refine { h with
      enrolled := ⟨h.enrolled.initialized, h.enrolled.keyed.erase⟩
      processes := h.processes.erase hslot
      registered := fun u q hu => (hmem q).mpr ⟨h.registered u q hu, ?_⟩ }
    -- nobody names a process with an empty list
    rintro rfl
    obtain ⟨items, hrep, -, hitems⟩ := h.lists q
    rw [hrep.count, List.length_eq_zero_iff] at hempty
    rw [hempty] at hitems
    exact absurd (hitems u hu) List.not_mem_nil
  exact .of_sched_eq (herased.setProcess (fun hp => ((hmem p).mp hp).2 rfl) rfl) rfl

/-- `process_attach_task` checks that the task is not in the list. -/
theorem processAttachTask (h : k.Robust platform) (p : ProcessRef) (t : TaskRef) :
    k.Keeps platform (processAttachTask k p t).2 := by
  obtain ⟨items, hrep, hnodup, hitems⟩ := h.lists p
  unfold Batos.processAttachTask
  split_ifs with hactive hattached hspace hfull hlisted
  · exact .refl h
  · exact .refl h
  · exact .refl h
  · exact .refl h
  · exact .refl h
  · rw [not_or, h.enrolled.contains_eq_false, not_not] at hactive
    have hnot : t ∉ items := by
      intro ht
      obtain ⟨index, hindex, -⟩ := hrep.indexOf_of_mem ht
      rw [hindex] at hlisted
      exact hlisted rfl
    refine .of_update (h.relist (hrep.push t) ?_ (fun u _ hu => ?_) fun q hq => ?_) rfl rfl
      (.inr ⟨rfl, rfl⟩)
    · exact List.nodup_append.mpr ⟨hnodup, List.nodup_singleton t, fun u hu v hv huv =>
        hnot (by rw [List.mem_singleton] at hv; rwa [← hv, ← huv])⟩
    · exact List.mem_append_left _ (hitems u hu)
    · obtain rfl : p = q := Option.some.inj hq
      exact ⟨rfl, by simp, hactive.1⟩

/-- **`process_detach_task`** succeeds on a task that names the process. -/
theorem processDetachTask_cases (h : k.Robust platform) (p : ProcessRef) (t : TaskRef) :
    (∃ code, code ≠ 0 ∧ processDetachTask k p t = (code, k) ∧ (k.task t).process ≠ some p) ∨
      ∃ index items rest, processDetachTask k p t =
          (0, (k.setProcess p { k.processes p with
            tasks := (k.processes p).tasks.removeAt index }).setTask t
              { k.task t with process := none }) ∧
        (k.task t).process = some p ∧ (k.processes p).tasks.Represents items ∧
        ((k.processes p).tasks.removeAt index).Represents rest ∧ items.Perm (t :: rest) ∧
        (t :: rest).Nodup ∧ ∀ u, u ≠ t → (k.task u).process = some p → u ∈ rest := by
  obtain ⟨items, hrep, hnodup, hitems⟩ := h.lists p
  rcases h.enrolled.detach hrep hnodup hitems t (h.registered t p) with
    hfail | ⟨index, rest, -, heq, hmember, hrest, hperm, hcons⟩
  · exact .inl hfail
  · refine .inr ⟨index, items, rest, heq, hmember, hrep, hrest, hperm, hcons, fun u hu hu' => ?_⟩
    exact (List.mem_cons.mp (hperm.mem_iff.mp (hitems u hu'))).resolve_left hu

/-- `process_detach_task` clears the name that the task bears. -/
theorem processDetachTask (h : k.Robust platform) (p : ProcessRef) (t : TaskRef) :
    k.Keeps platform (processDetachTask k p t).2 := by
  rcases h.processDetachTask_cases p t with
    ⟨code, -, heq, -⟩ | ⟨index, items, rest, heq, -, -, hrest, -, hcons, hothers⟩ <;> rw [heq]
  · exact .refl h
  exact .of_update (h.relist hrest (List.nodup_cons.mp hcons).2 hothers nofun) rfl rfl
    (.inr ⟨rfl, rfl⟩)

/-- The registry counts a task as often as it is entered. -/
theorem taskRegistryRegister (h : k.Robust platform) (t : TaskRef) :
    k.Keeps platform (taskRegistryRegister k t).2 := by
  unfold Batos.taskRegistryRegister
  rw [if_neg (by rw [h.initialized]; decide)]
  cases IdTable.slotOf taskMaxTasks (k.task t).id.toNat with
  | none => exact .refl h
  | some index =>
      dsimp only
      split_ifs with hstate hslot hfull
      · exact .refl h
      · exact .refl h
      · exact .refl h
      · rw [Option.not_isSome_iff_eq_none] at hslot
        exact .of_sched_eq { h with
          enrolled := ⟨h.enrolled.initialized, h.enrolled.keyed⟩
          counted := h.counted.insert hslot t } rfl

/-- **`task_registry_unregister`** succeeds on a task that is found under its id. -/
theorem taskRegistryUnregister_cases (h : k.Robust platform) (t : TaskRef) :
    (taskRegistryUnregister k t = (-1, k) ∧ taskRegistryContains k t = false) ∨
      ∃ index, (k.task t).id.toNat = index.val + 1 ∧ k.taskRegistry.slots index = some t ∧
        taskRegistryUnregister k t =
          (0, { k with taskRegistry := k.taskRegistry.erase index }) := by
  by_cases hcontains : taskRegistryContains k t = true
  · right
    rw [taskRegistryContains, h.initialized, Bool.true_and, decide_eq_true_eq, IdTable.find_eq_some]
      at hcontains
    obtain ⟨index, hid, hslot⟩ := hcontains
    exact ⟨index, hid, hslot, taskRegistryUnregister_of_slot h.initialized hslot hid
      (h.counted.ne_zero hslot)⟩
  · rw [Bool.not_eq_true] at hcontains
    refine .inl ⟨?_, hcontains⟩
    rw [taskRegistryContains, h.initialized, Bool.true_and, decide_eq_false_iff_not] at hcontains
    unfold Batos.taskRegistryUnregister
    rw [if_neg (by rw [h.initialized]; decide)]
    cases hslotOf : IdTable.slotOf taskMaxTasks (k.task t).id.toNat with
    | none => rfl
    | some index =>
        rw [IdTable.find_of_slotOf hslotOf] at hcontains
        exact if_pos hcontains

theorem taskRegistryUnregister (h : k.Robust platform) (t : TaskRef) :
    k.Keeps platform (taskRegistryUnregister k t).2 := by
  rcases h.taskRegistryUnregister_cases t with ⟨heq, -⟩ | ⟨index, -, hslot, heq⟩ <;> rw [heq]
  · exact .refl h
  · exact .of_sched_eq { h with
      enrolled := ⟨h.enrolled.initialized, h.enrolled.keyed⟩
      counted := h.counted.erase hslot } rfl

/-- `scheduler_add` queues a task that is ready, and once only. -/
theorem schedulerAdd (h : k.Robust platform) (t : TaskRef) :
    k.Keeps platform (k.schedule (schedulerAdd · t)).2 := by
  obtain ⟨ready, hqueued⟩ := h.runqueue
  rw [Kernel.schedule, Batos.schedulerAdd]
  split_ifs
  · exact .refl h
  rw [hqueued.enqueue]
  split_ifs with haccepts
  · exact h.keeps_resched ⟨hqueued.initialized,
      hqueued.runqueue.push hqueued.initialized haccepts.2.1 haccepts.2.2⟩ rfl rfl
  · exact .refl h

/-- **`runqueue_remove`** succeeds on a task that is queued. -/
theorem runqueueRemove_cases (h : k.Robust platform) (t : TaskRef) :
    (k.schedule (runqueueRemove · t) = (-1, k) ∧ t ∉ k.sched.runqueue.items) ∨
      ∃ queue, k.schedule (runqueueRemove · t) =
          (0, { k with sched := { k.sched with runqueue := queue } }) ∧
        t ∈ k.sched.runqueue.items ∧ queue.Holds (k.sched.runqueue.items.erase t) ∧
        queue.initialized = true ∧ k.sched.runqueue.items.Nodup := by
  obtain ⟨ready, hqueued⟩ := h.runqueue
  rw [hqueued.runqueue.items_eq]
  by_cases hmem : t ∈ ready
  · obtain ⟨queue, hremove, hholds, hinit⟩ := hqueued.runqueue.remove hmem
    refine .inr ⟨queue, ?_, hmem, hholds, hinit, hqueued.runqueue.nodup⟩
    simp only [Kernel.schedule, Batos.runqueueRemove, hremove]
  · refine .inl ⟨?_, hmem⟩
    simp only [Kernel.schedule, Batos.runqueueRemove, hqueued.runqueue.remove_of_not_mem hmem]

theorem runqueueRemove (h : k.Robust platform) (t : TaskRef) :
    k.Keeps platform (k.schedule (runqueueRemove · t)).2 := by
  rcases h.runqueueRemove_cases t with ⟨heq, -⟩ | ⟨queue, heq, -, hholds, hinit, -⟩ <;> rw [heq]
  · exact .refl h
  · exact h.keeps_resched ⟨hinit, hholds⟩ rfl rfl

theorem manage (h : k.Robust platform) (t : TaskRef) : k.Keeps platform (k.manage t) := by
  exact .of_update (h.refit (v := k.vmm) h.memory h.small (.inr rfl) (h.stack t) (h.bare t)) rfl rfl
    (.inr ⟨rfl, rfl⟩)

/-- The stack a task names lies in the window. -/
theorem stackPage_mem (h : k.Robust platform) (hbase : (k.task t).kernelStackBase ≠ 0)
    (page : Fin 4) :
    stackPage (k.task t).kernelStackBase page ∈ platform.layout.window := by
  obtain ⟨hid, hmax, -, heq⟩ := h.stack t hbase
  rw [heq]
  exact stackPage_mem_window platform.layout.toTaskLayout hid hmax page

/-- `task_destroy` takes pages away. -/
theorem taskDestroy_pagewise (h : k.Robust platform) (hbase : (k.task t).kernelStackBase ≠ 0) :
    k.vmm.paging.Pagewise platform.root (Batos.taskDestroy k t).2.vmm.paging := by
  have hunmap := taskUnmapStack_pagewise h.memory.inv.wf (k.task t)
  rw [(h.stack t hbase).2.2.1] at hunmap
  unfold Batos.taskDestroy
  split_ifs
  · exact .refl _ _
  · exact .refl _ _
  · exact .refl _ _
  · exact .refl _ _
  · exact Call.andThen_rule (k.vmm.paging.Pagewise platform.root ·.vmm.paging)
      (k.vmm.paging.Pagewise platform.root ·.2.vmm.paging) hunmap (fun _ h => h) fun _ h => h

/-- **`task_destroy`** ends the task, or leaves of it everything but the record of its
frames. -/
theorem taskDestroy (h : k.Robust platform) (t : TaskRef) :
    k.Keeps platform (taskDestroy k t).2 := by
  have hreclaimed : ∀ {v : Vmm}, platform.Backs v →
      SmallPages platform.root platform.layout.window v.paging →
      k.Keeps platform (k.refit v t (k.task t).reclaimed) := by
    intro v hv hsmall
    exact .of_update (h.refit hv hsmall (.inl rfl) (fun hne => absurd rfl hne) fun _ => rfl)
      rfl rfl (.inl rfl)
  by_cases hd : k.Destructible t
  swap
  · rw [taskDestroy_refused hd]
    exact .refl h
  by_cases hbase : (k.task t).kernelStackBase = 0
  · rw [taskDestroy_of_base_eq_zero hd hbase]
    exact hreclaimed h.memory h.small
  · have hsmall := h.small.of_pagewise (h.taskDestroy_pagewise hbase)
    obtain ⟨v, hv, ⟨frames, heq⟩ | heq⟩ := taskDestroy_cases h.memory (h.stack t hbase).2.2.1
      (h.stackPage_mem hbase) <;> rw [heq] at hsmall ⊢
    · exact .of_update (h.refit hv hsmall (.inr rfl) (h.stack t) (h.bare t)) rfl rfl
        (.inr ⟨rfl, rfl⟩)
    · exact hreclaimed hv hsmall

/-! ## Calls made of the building blocks -/

/-- The rollback takes its steps one by one, and stops where one fails. -/
theorem executionRollbackTaskInternal (h : k.Robust platform) (p : ProcessRef) (t : TaskRef)
    (taskRegistered taskAttached : Bool) :
    k.Keeps platform (executionRollbackTaskInternal k p t taskRegistered taskAttached).2 := by
  refine .orFail ?_ fun _ h => .orFail ?_ fun _ h => .orFail (h.taskDestroy t) fun _ h => .refl h
  · split_ifs
    · exact h.processDetachTask p t
    · exact .refl h
  · split_ifs
    · exact h.taskRegistryUnregister t
    · exact .refl h

theorem executionRollbackKernelTaskInternal (h : k.Robust platform) (p : ProcessRef) (t : TaskRef)
    (taskRegistered taskAttached : Bool) :
    k.Keeps platform (executionRollbackKernelTaskInternal k p t taskRegistered taskAttached).2 :=
  .orFail (h.executionRollbackTaskInternal p t taskRegistered taskAttached) fun _ h =>
    .orFail (h.processTerminate p) fun _ h => .orFail (h.processDestroy p) fun _ h => .refl h

/-- **`execution_destroy_task`** is a chain of building blocks. -/
theorem executionDestroyTask (h : k.Robust platform) (p : ProcessRef) (t : TaskRef) :
    k.Keeps platform (executionDestroyTask k p t).2 := by
  unfold Batos.executionDestroyTask
  split_ifs
  · exact .refl h
  · exact .orFail (h.runqueueRemove t) fun _ h => .orFail (h.processDetachTask p t) fun _ h =>
      .orFail (h.taskRegistryUnregister t) fun _ h => .orFail (h.taskDestroy t) fun _ h => .refl h

theorem executionDestroyKernelTask (h : k.Robust platform) (p : ProcessRef) (t : TaskRef) :
    k.Keeps platform (executionDestroyKernelTask k p t).2 := by
  unfold Batos.executionDestroyKernelTask
  split_ifs
  · exact .refl h
  · exact .orFail (h.executionDestroyTask p t) fun _ h => .orFail (h.processTerminate p) fun _ h =>
      .orFail (h.processDestroy p) fun _ h => .refl h

theorem lifecyclePublishTerminatedTask (h : k.Robust platform) (t : TaskRef) :
    k.Keeps platform (lifecyclePublishTerminatedTask k t).2 := by
  obtain ⟨code, queue, heq⟩ := lifecyclePublishTerminatedTask_eq k t
  rw [heq]
  exact .of_sched_eq (h.relifecycle queue) rfl

theorem reclaimHead (h : k.Robust platform) : k.Keeps platform (reclaimHead k).2 := by
  rcases reclaimHead_refuses_or_releases k with ⟨code, -, heq⟩ | ⟨t, heq⟩ <;> rw [heq]
  · exact .refl h
  refine .orFail ?_ fun _ h => .orFail (h.taskRegistryUnregister t) fun _ h =>
    .orFail (h.taskDestroy t) fun _ h => .of_sched_eq (h.relifecycle _) rfl
  unfold detachOwner
  cases (k.task t).process with
  | none => exact .refl h
  | some p => exact h.processDetachTask p t

/-- Masking interrupts around a call makes no difference. -/
theorem masked (h : k.Robust platform) {call : Kernel → Call}
    (hcall : ∀ k : Kernel, k.Robust platform → k.Keeps platform (call k).2) :
    k.Keeps platform (k.masked call).2 := by
  obtain ⟨ready, hqueued⟩ := h.runqueue
  have hmasked : k.Keeps platform { k with sched := k.sched.irqSave } :=
    h.keeps_resched (s := k.sched.irqSave) ⟨hqueued.initialized, hqueued.runqueue⟩ rfl rfl
  have hdone := hmasked.trans (hcall _ hmasked.robust)
  obtain ⟨ready', hqueued'⟩ := hdone.robust.runqueue
  exact hdone.trans (hdone.robust.keeps_resched
    (s := (call { k with sched := k.sched.irqSave }).2.sched.irqRestore k.sched.interruptFlag)
    ⟨hqueued'.initialized, hqueued'.runqueue⟩ rfl rfl)

/-- **`lifecycle_reap_one`** reclaims the head of its queue, with interrupts masked. -/
theorem lifecycleReapOne (h : k.Robust platform) : k.Keeps platform (lifecycleReapOne k).2 := by
  unfold Batos.lifecycleReapOne
  split_ifs
  · exact .refl h
  · exact .refl h
  · exact h.masked fun _ h => h.reclaimHead

end Kernel.Robust

/-! ## Construction -/

/-- What a constructor of `t` does.  When the task has been built it is ready to start, or it
has been rolled back; when it has not, it does not wait for the CPU unless it did before. -/
structure Kernel.Builds (platform : Platform) (t : TaskRef) (built : Prop) (k k' : Kernel) :
    Prop where
  robust : k'.Robust platform
  current : k'.sched.current = k.sched.current
  others : ∀ u, u ≠ t → (k'.task u).state = .terminated ∨ ((k'.task u).state = (k.task u).state ∧
    (k'.task u).resumeAuthority = (k.task u).resumeAuthority)
  fresh : built → (k'.task t).state = .terminated ∨
    ((k'.task t).state = .ready ∧ (k'.task t).resumeAuthority = .context)
  spared : ¬ built → (k'.task t).state = .new ∨ (k'.task t).state = .terminated ∨
    ((k'.task t).state = (k.task t).state ∧ (k'.task t).resumeAuthority =
    (k.task t).resumeAuthority)

namespace Kernel.Builds

variable {built : Prop} {k₁ : Kernel}

/-- Nothing has been built. -/
theorem of_keeps (h : k.Keeps platform k') (hnot : ¬ built) : k.Builds platform t built k' :=
  ⟨h.robust, h.current, fun u _ => h.places u, fun hbuilt => absurd hbuilt hnot,
    fun _ => .inr (h.places t)⟩

/-- What leads up to the construction. -/
theorem after (h : k.Keeps platform k₁) (h' : k₁.Builds platform t built k') :
    k.Builds platform t built k' := by
  have hchain : ∀ u, (k'.task u).state = (k₁.task u).state ∧
      (k'.task u).resumeAuthority = (k₁.task u).resumeAuthority →
      (k'.task u).state = .terminated ∨ ((k'.task u).state = (k.task u).state ∧
        (k'.task u).resumeAuthority = (k.task u).resumeAuthority) := by
    rintro u ⟨hstate, hauthority⟩
    rw [hstate, hauthority]
    exact h.places u
  refine ⟨h'.robust, h'.current.trans h.current, fun u hu => ?_, h'.fresh, fun hnot => ?_⟩
  · rcases h'.others u hu with hended | hsame
    · exact .inl hended
    · exact hchain u hsame
  · rcases h'.spared hnot with hnew | hended | hsame
    · exact .inl hnew
    · exact .inr (.inl hended)
    · exact .inr (hchain t hsame)

/-- What follows the construction. -/
theorem keeps (h : k.Builds platform t built k₁) (h' : k₁.Keeps platform k') :
    k.Builds platform t built k' := by
  refine ⟨h'.robust, h'.current.trans h.current, fun u hu => ?_, fun hbuilt => ?_, fun hnot => ?_⟩
  · rcases h'.places u with hended | ⟨hstate, hauthority⟩
    · exact .inl hended
    · rw [hstate, hauthority]
      exact h.others u hu
  · rcases h'.places t with hended | ⟨hstate, hauthority⟩
    · exact .inl hended
    · rw [hstate, hauthority]
      exact h.fresh hbuilt
  · rcases h'.places t with hended | ⟨hstate, hauthority⟩
    · exact .inr (.inl hended)
    · rw [hstate, hauthority]
      exact h.spared hnot

/-- What comes after the construction touches no task that waits for the CPU. -/
theorem andThen (hcall : k.Builds platform t built call.2)
    (hrecover : ∀ k : Kernel, k.Robust platform → k.Keeps platform (recover k).2)
    (hnext : ∀ k : Kernel, k.Robust platform → k.Keeps platform (next k).2) :
    k.Builds platform t built (call.andThen recover next).2 :=
  Call.andThen_rule (k.Builds platform t built ·)
    (fun call => k.Builds platform t built call.2) hcall
    (fun k₁ h₁ => h₁.keeps (hrecover k₁ h₁.robust)) fun k₁ h₁ => h₁.keeps (hnext k₁ h₁.robust)

end Kernel.Builds

/-- `execution_create_kernel_task` gets as far as the construction of the task. -/
def executionCreateKernelTaskReaches (k : Kernel) (p : ProcessRef)
    (pid tid addressSpace entry : Word) :
    Bool :=
  decide (pid ≠ 0 ∧ tid ≠ 0 ∧ addressSpace ≠ 0 ∧ entry ≠ 0) && decide
    (addressSpace = vmmGetPml4 k.vmm) && decide ((processCreate k p pid addressSpace).1 = 0)

namespace Kernel.Robust

/-- **`task_create`** on any task object. -/
theorem taskCreate (h : k.Robust platform) (t : TaskRef) (id addressSpace entry argument : Word) :
    k.Builds platform t ((k.taskCreate platform.layout t id addressSpace entry argument).1 = 0)
      (k.taskCreate platform.layout t id addressSpace entry argument).2 := by
  by_cases haccepts : taskCreateAccepts id addressSpace entry = true
  swap
  · rw [taskCreate_rejected platform.layout t id addressSpace entry argument
      (by simpa using haccepts)]
    exact .of_keeps (.refl h) (by norm_num)
  have hroot := h.memory.root_eq
  have hbacked := h.memory.taskCreate (platform.layout.taskAddress t) (k.task t)
    id addressSpace entry argument
  have hpagewise := taskCreate_pagewise platform.layout.toTaskLayout (platform.layout.taskAddress t)
    h.memory.inv (k.task t) id addressSpace entry argument
  rw [hroot] at hpagewise
  have hsmall := h.small.of_pagewise hpagewise
  obtain ⟨hid, hmax, -⟩ := taskCreateAccepts_iff.mp haccepts
  unfold Kernel.taskCreate
  rcases Batos.taskCreate_cases platform.layout.toTaskLayout (platform.layout.taskAddress t)
    (k.task t)
      argument h.memory.inv haccepts with ⟨v, heq, -⟩ | ⟨hspace, frames, v, heq, -, -⟩
  · rw [heq] at hbacked hsmall ⊢
    have hself : (k.refit v t (stacklessTask id addressSpace entry argument)).task t = _ :=
      k.task_refit v t _
    refine ⟨h.refit hbacked hsmall (.inl rfl) (fun hne => absurd rfl hne) fun _ => rfl, rfl,
      fun u hu => .inr ?_,
      fun hbuilt => absurd (show (-1 : ℤ) = 0 from hbuilt) (by decide),
      fun _ => .inl (congrArg Task.state hself)⟩
    rw [show Kernel.task _ u = k.task u from update_of_ne hu _ _]
    exact ⟨rfl, rfl⟩
  · rw [heq] at hbacked hsmall ⊢
    set task := freshTask platform.layout.toTaskLayout id addressSpace entry argument
      frames with htask
    have hself : (k.refit v t task).task t = task := k.task_refit v t _
    have hbase : task.kernelStackBase ≠ 0 := taskStackVirtualFor_ne_zero _ hid hmax
    refine ⟨h.refit hbacked hsmall (.inl rfl) (fun _ => ⟨hid, hmax, hspace.trans hroot, rfl⟩)
      fun hzero => absurd hzero hbase, rfl, fun u hu => .inr ?_, fun _ => .inr ?_, fun hnot =>
      absurd rfl hnot⟩
    · rw [show Kernel.task _ u = k.task u from update_of_ne hu _ _]
      exact ⟨rfl, rfl⟩
    · exact ⟨congrArg Task.state hself, congrArg Task.resumeAuthority hself⟩

/-- **`execution_create_task`** builds the task when `task_create` is reached and succeeds. -/
theorem executionCreateTask (h : k.Robust platform) (p : ProcessRef) (t : TaskRef)
    (tid addressSpace entry argument : Word) :
    k.Builds platform t (executionCreateTaskAccepts k p tid addressSpace entry = true ∧
        (k.taskCreate platform.layout t tid addressSpace entry argument).1 = 0)
      (executionCreateTask platform.layout k p t tid addressSpace entry argument).2 := by
  cases haccepts : executionCreateTaskAccepts k p tid addressSpace entry with
  | false =>
      obtain ⟨code, -, heq⟩ := executionCreateTask_rejected platform.layout p t tid addressSpace
        entry argument haccepts
      rw [heq]
      exact .of_keeps (.refl h) fun hbuilt => absurd hbuilt.1 (by decide)
  | true =>
      have hrollback : ∀ {k : Kernel} (registered attached : Bool) (failed : ℤ), k.Robust platform →
          k.Keeps platform ((Batos.executionRollbackTaskInternal k p t
            registered attached).rolledBack (-6) failed).2 := fun registered attached _ h =>
        (h.executionRollbackTaskInternal p t registered attached).rolledBack _ _
      obtain ⟨hgiven, hactive, hmatch, hkernel⟩ := executionCreateTaskAccepts_iff.mp haccepts
      unfold Batos.executionCreateTask
      rw [if_neg hgiven, if_neg hactive, if_neg hmatch, if_neg hkernel]
      simp only [true_and]
      exact .andThen (h.taskCreate t tid addressSpace entry argument) (fun _ h => .refl h)
        fun _ h => .andThen (h.taskRegistryRegister t) (fun _ h => hrollback false false (-7) h)
        fun _ h => .andThen (h.processAttachTask p t) (fun _ h => hrollback true false (-8) h)
        fun _ h => .andThen (h.schedulerAdd t) (fun _ h => hrollback true true (-9) h)
        fun _ h => h.manage t

/-- **`execution_create_kernel_task`** builds the task when `task_create` is reached and
succeeds. -/
theorem executionCreateKernelTask (h : k.Robust platform) (p : ProcessRef) (t : TaskRef)
    (pid tid addressSpace entry argument : Word) :
    k.Builds platform t (executionCreateKernelTaskReaches k p pid tid addressSpace entry = true ∧
        ((Batos.processCreate k p pid addressSpace).2.taskCreate platform.layout t tid
          addressSpace entry argument).1 = 0)
      (executionCreateKernelTask platform.layout k p t pid tid addressSpace entry argument).2 := by
  have hrollback : ∀ {k : Kernel} (registered attached : Bool) (failed : ℤ), k.Robust platform →
      k.Keeps platform ((Batos.executionRollbackKernelTaskInternal k p t
        registered attached).rolledBack (-5) failed).2 := fun registered attached _ h =>
    (h.executionRollbackKernelTaskInternal p t registered attached).rolledBack _ _
  have hcreated := h.processCreate p pid addressSpace
  unfold Batos.executionCreateKernelTask
  by_cases hreaches : executionCreateKernelTaskReaches k p pid tid addressSpace entry = true
  · have hchecks := hreaches
    simp only [executionCreateKernelTaskReaches, Bool.and_eq_true, decide_eq_true_eq] at hchecks
    obtain ⟨⟨hgiven, hkernel⟩, hcode⟩ := hchecks
    rw [if_neg (by simpa only [not_or] using hgiven), if_neg (not_not.mpr hkernel), Call.andThen,
      if_neg (not_not.mpr hcode)]
    simp only [hreaches, true_and]
    refine .after hcreated (.andThen (hcreated.robust.taskCreate t tid addressSpace entry argument)
      (fun _ h => .orFail (h.processTerminate p) fun _ h => (h.processDestroy p).rolledBack _ _)
      fun _ h => .andThen (h.taskRegistryRegister t) (fun _ h => hrollback false false (-7) h)
      fun _ h => .andThen (h.processAttachTask p t) (fun _ h => hrollback true false (-8) h)
      fun _ h => .andThen (h.schedulerAdd t) (fun _ h => hrollback true true (-9) h)
      fun _ h => h.manage t)
  · refine .of_keeps ?_ fun hbuilt => hreaches hbuilt.1
    split_ifs with hnull hkernel
    · exact .refl h
    · exact .refl h
    · rw [Call.andThen, if_pos fun hcode => hreaches ?_]
      · exact hcreated
      · simp only [executionCreateKernelTaskReaches, Bool.and_eq_true, decide_eq_true_eq]
        exact ⟨⟨by simpa only [not_or] using hnull, not_not.mp hkernel⟩, hcode⟩

end Kernel.Robust

/-! ## Runs -/

/-- What can happen: everything of `Process.System`, and the building blocks on their own. -/
inductive UnguardedOp
  | kernel (op : KernelOp)
  | schedulerAdd (t : TaskRef)
  | runqueueRemove (t : TaskRef)
  | taskRegistryRegister (t : TaskRef)
  | taskRegistryUnregister (t : TaskRef)
  | taskCreate (t : TaskRef) (id addressSpace entry argument : Word)
  | taskDestroy (t : TaskRef)
  /-- `lifecycle_publish_terminated_task`. -/
  | publish (t : TaskRef)

namespace UnguardedOp

/-- The effect of an operation. -/
def step (layout : KernelLayout) (m : KernelMachine) : UnguardedOp → KernelMachine
  | .kernel op => m.step layout op
  | .schedulerAdd t => m.setKernel (m.kernel.schedule (Batos.schedulerAdd · t)).2
  | .runqueueRemove t => m.setKernel (m.kernel.schedule (Batos.runqueueRemove · t)).2
  | .taskRegistryRegister t => m.setKernel (Batos.taskRegistryRegister m.kernel t).2
  | .taskRegistryUnregister t => m.setKernel (Batos.taskRegistryUnregister m.kernel t).2
  | .taskCreate t id addressSpace entry argument =>
      m.setKernel (m.kernel.taskCreate layout t id addressSpace entry argument).2
  | .taskDestroy t => m.setKernel (Batos.taskDestroy m.kernel t).2
  | .publish t => m.setKernel (lifecyclePublishTerminatedTask m.kernel t).2

/-- When it can happen.  Nothing is asked of the callers; a timer interrupt needs the
interrupt flag, and the other users of memory keep large pages out of the window of the
stacks. -/
def Enabled (platform : Platform) (m : KernelMachine) : UnguardedOp → Prop
  | .kernel (.memory v) => platform.Backs v ∧
  SmallPages platform.root platform.layout.window v.paging
  | .kernel (.timer _) => m.kernel.sched.interruptFlag = true
  | _ => True

/-- The task that is built in the operation. -/
def builds (layout : KernelLayout) (k : Kernel) : UnguardedOp → Option TaskRef
  | .taskCreate t id addressSpace entry argument =>
      if (k.taskCreate layout t id addressSpace entry argument).1 = 0 then some t else none
  | .kernel (.createTask p t tid addressSpace entry argument) =>
      if executionCreateTaskAccepts k p tid addressSpace entry = true ∧
        (k.taskCreate layout t tid addressSpace entry argument).1 = 0 then some t else none
  | .kernel (.createKernelTask p t pid tid addressSpace entry argument) =>
      if executionCreateKernelTaskReaches k p pid tid addressSpace entry = true ∧
        ((processCreate k p pid addressSpace).2.taskCreate layout t tid addressSpace entry
          argument).1 = 0 then some t else none
  | _ => none

/-- The kind of continuation an operation leaves when it takes the CPU from a task. -/
def leaves : UnguardedOp → ResumeAuthority
  | .kernel (.timer _) => .interrupt
  | _ => .context

end UnguardedOp

/-- The kernel in any hands, as a transition system. -/
def unguardedSystem (platform : Platform) : TransitionSystem KernelMachine UnguardedOp where
  enabled m op := m.halted = false ∧ op.Enabled platform m
  step m op := op.step platform.layout m

/-- A task other than the current one that waits for the CPU waited for it before, or has
just lost it, or has just been built. -/
structure Kernel.Moves (platform : Platform) (authority : ResumeAuthority) (built : Option TaskRef)
    (k k' : Kernel) : Prop where
  robust : k'.Robust platform
  waits : ∀ u, k'.sched.current ≠ some u → (k'.task u).state.suspended = true →
    (built ≠ some u ∧ ((k.sched.current ≠ some u ∧ (k.task u).state.suspended = true ∧
          (k'.task u).resumeAuthority = (k.task u).resumeAuthority) ∨
        ((k.task u).state = .running ∧ (k'.task u).resumeAuthority = authority))) ∨
      (built = some u ∧ (k'.task u).resumeAuthority = .context)

namespace Kernel.Moves

variable {authority : ResumeAuthority}

/-- The scheduler passes the CPU on, and nobody is built. -/
theorem of_passes (h : k'.Robust platform) (hpass : k.sched.Passes authority k'.sched) :
    k.Moves platform authority none k' :=
  ⟨h, fun u hnot hwaits => .inl ⟨nofun, hpass.suspended u hnot hwaits⟩⟩

/-- A step of the scheduler. -/
theorem resched (h : k.Robust platform) (hpass : k.sched.Passes authority s) :
    k.Moves platform authority none { k with sched := s } :=
  .of_passes (h.resched hpass.queued hpass.identity hpass.dormant) hpass

/-- A task that is where it was, or has ended. -/
theorem stays {u : TaskRef} (hcurrent : k'.sched.current = k.sched.current)
    (hplace : (k'.task u).state = .terminated ∨ ((k'.task u).state = (k.task u).state ∧
      (k'.task u).resumeAuthority = (k.task u).resumeAuthority))
    (hnot : k'.sched.current ≠ some u) (hwaits : (k'.task u).state.suspended = true) :
    k.sched.current ≠ some u ∧ (k.task u).state.suspended = true ∧
      (k'.task u).resumeAuthority = (k.task u).resumeAuthority := by
  rcases hplace with hended | ⟨hstate, hauthority⟩
  · rw [hended] at hwaits
    cases hwaits
  · exact ⟨hcurrent ▸ hnot, hstate ▸ hwaits, hauthority⟩

theorem of_keeps (h : k.Keeps platform k') : k.Moves platform authority none k' :=
  ⟨h.robust, fun u hnot hwaits => .inl ⟨nofun, .inl (stays h.current (h.places u) hnot hwaits)⟩⟩

theorem of_builds {built : Prop} [Decidable built] (h : k.Builds platform t built k') :
    k.Moves platform authority (if built then some t else none) k' := by
  refine ⟨h.robust, fun u hnot hwaits => ?_⟩
  by_cases hu : u = t
  · subst hu
    by_cases hbuilt : built
    · rw [if_pos hbuilt]
      rcases h.fresh hbuilt with hended | ⟨-, hauthority⟩
      · rw [hended] at hwaits
        cases hwaits
      · exact .inr ⟨rfl, hauthority⟩
    · rw [if_neg hbuilt]
      rcases h.spared hbuilt with hnew | hplace
      · rw [hnew] at hwaits
        cases hwaits
      · exact .inl ⟨nofun, .inl (stays h.current hplace hnot hwaits)⟩
  · refine .inl ⟨fun heq => ?_, .inl (stays h.current (h.others u hu) hnot hwaits)⟩
    split_ifs at heq
    exact hu (Option.some.inj heq).symm

end Kernel.Moves

namespace Kernel.Robust

/-- The handoff at the end of a task. -/
theorem leaveCpu (h : k.Robust platform) (queue : TaskQueue) (hcurrent : k.sched.current = some t)
    (hidentity : task.identity = (k.task t).identity) (hended : task.state = .terminated)
    (registers : Context) :
    k.Moves platform .context none (Kernel.leaveCpu
      { k with sched := k.sched.irqSave.setTask t task, lifecycle := queue } t registers).2 := by
  obtain ⟨ready, hqueued⟩ := h.runqueue
  have hexited : (k.sched.irqSave.setTask t task).Queued ready :=
    ⟨hqueued.initialized, hqueued.runqueue⟩
  have hpass := hexited.exitCurrent_passes hcurrent hcurrent rfl hidentity hended registers
  have hmoves : ∀ {s : Sched}, k.sched.Passes .context s →
      k.Moves platform .context none { k with sched := s, lifecycle := queue } := fun hpass =>
    .of_passes ((h.relifecycle queue).resched hpass.queued hpass.identity hpass.dormant) hpass
  have hhalts : k.Moves platform .context none { k with
      sched := (schedulerExitCurrent (k.sched.irqSave.setTask t task) t registers).2.irqSave
      lifecycle := queue } := by
    obtain ⟨⟨ready, hqueued⟩, hidentity, hsuspended, hdormant⟩ := hpass
    exact hmoves ⟨⟨ready, hqueued.initialized, hqueued.runqueue⟩, hidentity, hsuspended, hdormant⟩
  unfold Kernel.leaveCpu
  cases hexit : schedulerExitCurrent (k.sched.irqSave.setTask t task) t registers with
  | mk control s =>
      rw [hexit] at hpass hhalts
      cases control with
      | resumes continuation => exact hmoves hpass
      | returns code => exact hhalts
      | halts => exact hhalts

/-- The end of a task, with or without the reaper. -/
theorem taskBootstrapExit (h : k.Robust platform) (hcurrent : k.sched.current = some t)
    (registers : Context) : k.Moves platform .context none (k.taskBootstrapExit t registers).2 := by
  obtain ⟨ready, hqueued⟩ := h.runqueue
  unfold Kernel.taskBootstrapExit
  cases hexit : taskExit k.sched.irqSave t with
  | none => exact .resched h (.of_tasks_eq ⟨hqueued.initialized, hqueued.runqueue⟩ rfl rfl)
  | some s =>
      obtain ⟨task, rfl, hidentity, hended⟩ : ∃ task, s = k.sched.irqSave.setTask t task ∧
          task.identity = (k.task t).identity ∧ task.state = .terminated := by
        unfold taskExit at hexit
        split_ifs at hexit with hrunning
        rw [not_not] at hrunning
        rw [Sched.transition, taskTransition_of_allows (by rw [hrunning]; rfl), Option.map_some,
          Option.map_some, Option.some.injEq] at hexit
        refine ⟨{ k.task t with state := .terminated, resumeAuthority := .none }, ?_, rfl, rfl⟩
        rw [← hexit]
        simp only [Sched.setTask, update_self, update_idem]
        rfl
      have hqueued' : (k.sched.irqSave.setTask t task).Queued ready :=
        ⟨hqueued.initialized, hqueued.runqueue⟩
      have hpass : k.sched.Passes .context (k.sched.irqSave.setTask t task) :=
        .of_update hqueued' rfl rfl hidentity (fun hnot => absurd hcurrent hnot)
          fun _ => by rw [hended]; rfl
      dsimp only
      split_ifs with hmanaged hpublish
      · obtain ⟨code, queue, heq⟩ := lifecyclePublishTerminatedTask_eq
          { k with sched := k.sched.irqSave.setTask t task } t
        rw [heq]
        exact .of_passes ((h.relifecycle queue).resched hpass.queued hpass.identity
          hpass.dormant) hpass
      · obtain ⟨code, queue, heq⟩ := lifecyclePublishTerminatedTask_eq
          { k with sched := k.sched.irqSave.setTask t task } t
        rw [heq]
        exact h.leaveCpu queue hcurrent hidentity hended registers
      · exact h.leaveCpu k.lifecycle hcurrent hidentity hended registers

end Kernel.Robust

/-- **What every operation does**, whoever asks for it. -/
theorem UnguardedOp.moves (h : m.kernel.Robust platform) {op : UnguardedOp}
    (hop : op.Enabled platform m) :
    m.kernel.Moves platform op.leaves (op.builds platform.layout m.kernel)
      (op.step platform.layout m).kernel := by
  obtain ⟨ready, hqueued⟩ := h.runqueue
  cases op with
  | schedulerAdd t => exact .of_keeps (h.schedulerAdd t)
  | runqueueRemove t => exact .of_keeps (h.runqueueRemove t)
  | taskRegistryRegister t => exact .of_keeps (h.taskRegistryRegister t)
  | taskRegistryUnregister t => exact .of_keeps (h.taskRegistryUnregister t)
  | taskCreate t id addressSpace entry argument =>
      exact .of_builds (h.taskCreate t id addressSpace entry argument)
  | taskDestroy t => exact .of_keeps (h.taskDestroy t)
  | publish t => exact .of_keeps (h.lifecyclePublishTerminatedTask t)
  | kernel op =>
      cases op with
      | memory v =>
          obtain ⟨hv, hsmall⟩ := hop
          exact .of_keeps (.of_sched_eq { h with
            enrolled := ⟨h.enrolled.initialized, h.enrolled.keyed⟩
            memory := hv
            small := hsmall } rfl)
      | processCreate p pid addressSpace => exact .of_keeps (h.processCreate p pid addressSpace)
      | processAttachTask p t => exact .of_keeps (h.processAttachTask p t)
      | processDetachTask p t => exact .of_keeps (h.processDetachTask p t)
      | processTransition p target => exact .of_keeps (h.processTransition p target)
      | processTerminate p => exact .of_keeps (h.processTerminate p)
      | processDestroy p => exact .of_keeps (h.processDestroy p)
      | createKernelTask p t pid tid addressSpace entry argument =>
          exact .of_builds (h.executionCreateKernelTask p t pid tid addressSpace entry argument)
      | createTask p t tid addressSpace entry argument =>
          exact .of_builds (h.executionCreateTask p t tid addressSpace entry argument)
      | destroyTask p t => exact .of_keeps (h.executionDestroyTask p t)
      | destroyKernelTask p t => exact .of_keeps (h.executionDestroyKernelTask p t)
      | reap => exact .of_keeps h.lifecycleReapOne
      | start => exact .resched h hqueued.start_passes
      | yield registers => exact .resched h (hqueued.yield_passes registers)
      | timer frame => exact .resched h (hqueued.timer_passes frame)
      | preemption | interrupts | initQueue =>
          exact .resched h (.of_tasks_eq ⟨hqueued.initialized, hqueued.runqueue⟩ rfl rfl)
      | block t q registers => exact .resched h (hqueued.block_passes t q registers)
      | wake t => exact .resched h (hqueued.wake_passes t)
      | exit registers =>
          unfold UnguardedOp.step KernelMachine.step
          cases hcurrent : m.kernel.sched.current with
          | none => exact .of_keeps (.refl h)
          | some c => exact h.taskBootstrapExit hcurrent registers

/-- Nothing is lost at boot. -/
theorem KernelMachine.robust_boot (platform : Platform) :
    (boot platform).kernel.Robust platform := by
  have hinv := inv_boot platform
  refine ⟨⟨[], rfl, TaskQueue.holds_empty true⟩, hinv.membership.enrolled, hinv.membership.counted,
    fun p => ⟨[], .empty, List.nodup_nil, nofun⟩, nofun, rfl, hinv.counted,
    fun _ hne => absurd rfl hne,
    fun _ _ => rfl, hinv.memory, ?_⟩
  intro va _ level entry hleaf
  rw [← hinv.memory.root_eq] at hleaf
  have hnone := platform.boot.lookup_start va
  exact absurd (hleaf.symm.trans hnone) nofun

/-- **The invariant of runs nobody guards.** -/
theorem KernelMachine.robust_of_reachable
    (hm : (unguardedSystem platform).Reachable (boot platform) m) : m.kernel.Robust platform :=
  hm.induction (fun m => m.kernel.Robust platform)
    (fun m op h (hop : m.halted = false ∧ op.Enabled platform m) =>
    (UnguardedOp.moves h hop.2).robust)
    (robust_boot platform)

end Batos
