import Batos.Process.Execution

/-!
# Reclamation of execution units

A task leaves the kernel in one of two ways.  `execution_destroy_task` takes a task that
has not ended out of the runqueue; `lifecycle_reap_one` takes the first task of the queue
of those that have ended.  From there on the two do the same: the task is detached from
its process, unregistered and destroyed (`Kernel.Inv.expelled`).

The last step may fail when the pages of the stack are not mapped as they were
constructed; the reaper then keeps the task in its queue.  On a stack that is mapped as
it should be it does not fail, and the reaper returns 0 (`lifecycleReapOne_of_mapped`).
-/

namespace Batos

variable {platform : Platform} {k : Kernel} {t : TaskRef} {p : ProcessRef}

/-- The head of a queue that is not empty. -/
theorem TaskQueue.Holds.slots_head {queue : TaskQueue} {items : List TaskRef}
    (h : queue.Holds (t :: items)) : queue.ring.slots queue.ring.head = some t := by
  have hcount : queue.ring.count = items.length + 1 := h.ring.count
  have hslot := h.ring.slots_of_lt (show 0 < queue.ring.count by omega)
  rw [RingBuffer.position_zero, List.getElem?_cons_zero] at hslot
  exact hslot

/-- The kernel is consistent, and the CPU is with `owner`. -/
structure Kernel.Sound (platform : Platform) (k : Kernel) (owner : Option TaskRef) : Prop where
  current : k.sched.current = owner
  inv : k.Inv platform owner

namespace Kernel.Sound

variable {owner : Option TaskRef}

/-- What every part of a call keeps consistent, the call does. -/
theorem andThen {call : Call} {recover next : Kernel → Call} (hcall : call.2.Sound platform owner)
    (hrecover : ∀ k, k.Sound platform owner → (recover k).2.Sound platform owner)
    (hnext : ∀ k, k.Sound platform owner → (next k).2.Sound platform owner) :
    (call.andThen recover next).2.Sound platform owner :=
  Call.andThen_rule (Kernel.Sound platform · owner) (fun call => call.2.Sound platform owner) hcall
    hrecover hnext

/-! ## Processes -/

theorem processTransition (h : k.Sound platform owner) (p : ProcessRef) (target : ProcessState) :
    (processTransition k p target).2.Sound platform owner := by
  rcases h.inv.membership.transition p target with
    ⟨code, -, heq, -⟩ | ⟨heq, hmembership⟩ <;> rw [heq]
  · exact h
  · exact ⟨h.current, h.inv.reprocess hmembership⟩

theorem processTerminate (h : k.Sound platform owner) (p : ProcessRef) :
    (processTerminate k p).2.Sound platform owner := by
  rcases h.inv.membership.terminate p with ⟨code, -, heq, -⟩ | ⟨heq, hmembership⟩ <;> rw [heq]
  · exact h
  · exact ⟨h.current, h.inv.reprocess hmembership⟩

theorem processDestroy (h : k.Sound platform owner) (p : ProcessRef) :
    (processDestroy k p).2.Sound platform owner := by
  rcases h.inv.membership.destroy p with
    ⟨code, -, heq, -⟩ | ⟨index, k', heq, -, hk', -, hmembership⟩ <;> rw [heq]
  · exact h
  · subst hk'
    exact ⟨h.current, h.inv.reprocess hmembership⟩

theorem processCreate (h : k.Sound platform owner) (p : ProcessRef) (pid addressSpace : Word) :
    (processCreate k p pid addressSpace).2.Sound platform owner := by
  rcases h.inv.membership.create p pid addressSpace with
    ⟨code, k', -, heq, rfl | ⟨hnew, rfl⟩⟩ | ⟨index, k', heq, -, -, hk', hmembership⟩ <;> rw [heq]
  · exact h
  · exact ⟨h.current, h.inv.reprocess (h.inv.membership.setProcess hnew {} rfl)⟩
  · subst hk'
    exact ⟨h.current, h.inv.reprocess hmembership⟩

theorem processAttachTask (h : k.Sound platform owner) (p : ProcessRef) (t : TaskRef) :
    (processAttachTask k p t).2.Sound platform owner := by
  rcases h.inv.membership.attach p t with
    ⟨code, -, heq, -⟩ | ⟨k', heq, hk', -, -, -, hmembership⟩ <;> rw [heq]
  · exact h
  · subst hk'
    exact ⟨h.current, h.inv.rewire hmembership⟩

theorem processDetachTask (h : k.Sound platform owner) (p : ProcessRef) (t : TaskRef) :
    (processDetachTask k p t).2.Sound platform owner := by
  rcases h.inv.membership.detach p t with
    ⟨code, -, heq, -⟩ | ⟨index, k', heq, -, hk', -, hmembership⟩ <;> rw [heq]
  · exact h
  · subst hk'
    exact ⟨h.current, h.inv.rewire hmembership⟩

end Kernel.Sound

/-! ## The common end -/

/-- `task_registry_unregister` of a task the scheduler does not have. -/
theorem Kernel.Inv.unregister_task {owner : Option TaskRef} (h : k.Inv platform owner)
    (hmem : k.taskRegistry.Mem t) (hidle : ¬ k.sched.Active t) :
    ∃ registry, taskRegistryUnregister k t = (0, { k with taskRegistry := registry }) ∧
      Kernel.Inv platform { k with taskRegistry := registry } owner ∧
      ∀ u, registry.Mem u ↔ k.taskRegistry.Mem u ∧ u ≠ t := by
  obtain ⟨index, hslot⟩ := hmem
  exact ⟨k.taskRegistry.erase index,
    taskRegistryUnregister_of_slot h.initialized hslot (h.keyed index t hslot)
      (h.counted.ne_zero hslot),
    (h.unregister hslot hidle).1, fun u => h.keyed.mem_erase hslot⟩

/-- The task has lost its process and its place in the registry, and nothing else has
happened. -/
structure Kernel.Expelled (k k' : Kernel) (t : TaskRef) : Prop where
  vmm : k'.vmm = k.vmm
  sched : k'.sched = k.sched.setTask t { k.task t with process := none }
  lifecycle : k'.lifecycle = k.lifecycle
  registry : ∀ u, k'.taskRegistry.Mem u ↔ k.taskRegistry.Mem u ∧ u ≠ t

/-- Detach the task from its process, if it has one, and unregister it. -/
theorem Kernel.Inv.expelled (h : k.Inv platform k.sched.current) (hmem : k.taskRegistry.Mem t)
    (hidle : ¬ k.sched.Active t) :
    ∃ k₁ k₂, detachOwner k t = (0, k₁) ∧
      taskRegistryUnregister k₁ t = (0, k₂) ∧ k.Expelled k₂ t ∧
      k₂.Inv platform k.sched.current := by
  unfold detachOwner
  cases hprocess : (k.task t).process with
  | none =>
      obtain ⟨registry, hunregister, hinv, hregistry⟩ := h.unregister_task hmem hidle
      refine ⟨k, _, rfl, hunregister, ⟨rfl, ?_, rfl, hregistry⟩, hinv⟩
      have hself : ({ k.task t with process := none } : Task) = k.task t := by rw [← hprocess]
      rw [hself, Sched.setTask, Function.update_eq_self]
  | some p =>
      have hdetached := (Kernel.Sound.processDetachTask ⟨rfl, h⟩ p t).inv
      rcases h.membership.detach p t with ⟨code, -, -, hnot⟩ | ⟨index, k₁, heq, -, hk₁, -, -⟩
      · exact absurd hprocess hnot
      rw [heq] at hdetached
      subst hk₁
      obtain ⟨registry, hunregister, hinv, hregistry⟩ := hdetached.unregister_task hmem hidle
      exact ⟨_, _, heq, hunregister, ⟨rfl, rfl, rfl, hregistry⟩, hinv⟩

namespace Kernel.Expelled

variable {k' : Kernel} (hexpelled : k.Expelled k' t)

include hexpelled

theorem task_eq : k'.task t = { k.task t with process := none } := by
  show k'.sched.tasks t = _
  rw [hexpelled.sched, Sched.setTask_self]

theorem current : k'.sched.current = k.sched.current := by
  rw [hexpelled.sched]
  rfl

theorem not_mem : ¬ k'.taskRegistry.Mem t := fun hmem => ((hexpelled.registry t).mp hmem).2 rfl

/-- **The destructor at the end**, whatever it finds mapped. -/
theorem destroyed (h : k.Inv platform k.sched.current) (hmem : k.taskRegistry.Mem t)
    (hinv : k'.Inv platform k.sched.current) :
    ∃ code v task, (code = 0 ∨ code = -1) ∧ taskDestroy k' t = (code, k'.refit v t task) ∧
      (k'.refit v t task).Inv platform k.sched.current := by
  rw [← hexpelled.current] at hinv ⊢
  have hself := hexpelled.task_eq
  have hgone := hexpelled.not_mem
  have hactive : ¬ k'.sched.Active t := fun hactive => hgone (hinv.active t hactive)
  have hqueue := hinv.sched.waitQueue_eq_none_of_not_active hactive
  have hprocess : (k'.task t).process = none := by rw [hself]
  have hmanaged : (k'.task t).lifecycleMode = .managed := by
    rw [hself]
    exact h.managed t (.inl hmem)
  obtain ⟨v, hv, ⟨frames, heq⟩ | heq⟩ := taskDestroy_cases hinv.memory
    (by rw [hself]; exact (h.stack t hmem).1) (by rw [hself]; exact h.stackPage_mem hmem)
  · refine ⟨-1, v, _, .inr rfl, heq, hinv.overwrite hgone hprocess hprocess (fun hrunning => ?_)
      (fun hblocked => (hinv.sched.blocked_iff t).mp hblocked hqueue) hqueue
      (hinv.sched.resumable t)
      (fun ht => ⟨(hinv.ended t ht).1, (hinv.ended t ht).2, hmanaged⟩) hv⟩
    exact hactive (.inl ((hinv.sched.running t).mpr hrunning))
  · exact ⟨0, v, _, .inl rfl, heq, hinv.overwrite hgone hprocess rfl nofun nofun rfl nofun
      (fun _ => ⟨rfl, rfl, hmanaged⟩) hv⟩

end Kernel.Expelled

/-! ## Destruction of a task that has not ended -/

theorem executionPreflightDestroyTask_iff (h : k.Inv platform k.sched.current) :
    executionPreflightDestroyTask k p t = true ↔ (k.task t).state = .ready ∧
      (k.task t).process = some p ∧ k.taskRegistry.Mem t ∧ k.processRegistry.Mem p ∧
      t ∈ k.sched.runqueue.items ∧ taskValidateReclaim k t = true := by
  simp only [executionPreflightDestroyTask, Bool.and_eq_true, decide_eq_true_eq, h.contains_iff,
    h.membership.contains_iff, h.sched.runqueue.contains_iff, and_assoc]

/-- **`execution_destroy_task`** keeps the kernel consistent, whether it refuses, succeeds
or finds the stack damaged. -/
theorem Kernel.Inv.executionDestroyTask (h : k.Inv platform k.sched.current) (p : ProcessRef)
    (t : TaskRef) : (executionDestroyTask k p t).2.Sound platform k.sched.current := by
  unfold Batos.executionDestroyTask
  cases hpreflight : executionPreflightDestroyTask k p t with
  | false =>
      rw [if_pos rfl]
      exact ⟨rfl, h⟩
  | true =>
      rw [if_neg (by simp)]
      obtain ⟨hready, hprocess, hmem, -, hqueued, -⟩ :=
        (executionPreflightDestroyTask_iff h).mp hpreflight
      obtain ⟨queue, hremove, hsched⟩ := h.sched.remove hqueued
      have hmoves : k.sched.Moves { k.sched with runqueue := queue } := by
        refine Sched.Moves.of_tasks_eq rfl fun u hu => ?_
        rcases hsched.active_iff.mp hu with hcurrent | hmem' | hwaiting
        · exact .inl hcurrent
        · exact .inr (.inl (List.mem_of_mem_erase hmem'))
        · exact .inr (.inr hwaiting)
      have hinv₁ := h.reschedule hsched (.inr rfl) hmoves
      set k₁ : Kernel := { k with sched := { k.sched with runqueue := queue } } with hk₁
      have hidle : ¬ Sched.Active { k.sched with runqueue := queue } t := by
        rw [hsched.active_iff]
        rintro (hcurrent | hmem' | ⟨q, hwaiting⟩)
        · have hrunning := (h.sched.running t).mp hcurrent
          rw [hready] at hrunning
          cases hrunning
        · exact h.sched.runqueue.nodup.not_mem_erase hmem'
        · have hnone := h.sched.waitQueue_eq_none (t := t) (by simp [hready])
          rw [(h.sched.waiting_iff q t).mp hwaiting] at hnone
          cases hnone
      obtain ⟨k₂, k₃, hdetach, hunregister, hexpelled, hinv₃⟩ := hinv₁.expelled hmem hidle
      have hdetach₁ : processDetachTask k₁ p t = (0, k₂) := by
        rw [detachOwner, show (k₁.task t).process = some p from hprocess] at hdetach
        exact hdetach
      have hschedule : k.schedule (runqueueRemove · t) = (0, k₁) := by rw [Kernel.schedule, hremove]
      obtain ⟨code, v, task, hcode, hdestroy, hinv⟩ := hexpelled.destroyed hinv₁ hmem hinv₃
      rw [hschedule, Call.andThen_zero, hdetach₁, Call.andThen_zero, hunregister, Call.andThen_zero,
        hdestroy]
      rcases hcode with rfl | rfl
      · exact ⟨hexpelled.current, hinv⟩
      · exact ⟨hexpelled.current, hinv⟩

/-- `execution_destroy_kernel_task` goes on to remove the process. -/
theorem Kernel.Inv.executionDestroyKernelTask (h : k.Inv platform k.sched.current) (p : ProcessRef)
    (t : TaskRef) : (executionDestroyKernelTask k p t).2.Sound platform k.sched.current := by
  unfold Batos.executionDestroyKernelTask
  split_ifs
  · exact ⟨rfl, h⟩
  refine (h.executionDestroyTask p t).andThen (fun _ h₁ => h₁) fun k₁ h₁ => ?_
  refine (h₁.processTerminate p).andThen (fun _ h₂ => h₂) fun k₂ h₂ => ?_
  exact (h₂.processDestroy p).andThen (fun _ h₃ => h₃) fun _ h₃ => h₃

/-! ## The reaper -/

/-- The interrupt flag is nobody's business here. -/
theorem Kernel.Inv.interrupts {owner : Option TaskRef} (h : k.Inv platform owner) (flag : Bool) :
    Kernel.Inv platform { k with sched := { k.sched with interruptFlag := flag } } owner :=
  h.reschedule (h.sched.of_eq rfl rfl rfl) h.owned (Sched.Moves.of_tasks_eq rfl fun _ hu => hu)

/-- The task is gone: it is not registered any more, and all others are as they were. -/
structure Kernel.Reclaimed (platform : Platform) (k k' : Kernel) (t : TaskRef) : Prop where
  sound : k'.Sound platform k.sched.current
  tasks : ∀ u, u ≠ t → k'.task u = k.task u
  registry : ∀ u, k'.taskRegistry.Mem u ↔ k.taskRegistry.Mem u ∧ u ≠ t

section Reaper

variable (h : k.Inv platform k.sched.current) {rest : List TaskRef}
  (hitems : k.lifecycle.items = t :: rest)

include h hitems

/-- The first task of the queue has ended for good. -/
theorem Kernel.Inv.head_ended :
    k.lifecycle.ring.slots k.lifecycle.ring.head = some t ∧ (k.task t).state = .terminated ∧
      (k.task t).resumeAuthority = .none ∧ ¬ k.sched.Active t := by
  have hpending := h.pending
  rw [hitems] at hpending
  obtain ⟨hstate, hresume⟩ := h.ended t (by rw [hitems]; exact List.mem_cons_self)
  exact ⟨hpending.slots_head, hstate, hresume, h.not_active_of_terminated hstate⟩

/-- The checks of the reaper come down to the registry. -/
theorem Kernel.Inv.reapable_iff : k.Reapable t ↔ k.taskRegistry.Mem t := by
  obtain ⟨-, hstate, hresume, hidle⟩ := h.head_ended hitems
  have hqueued : k.sched.runqueue.contains t = false := by
    rw [← Bool.not_eq_true, h.sched.runqueue.contains_iff]
    exact fun hmem => hidle (.inr (.inl hmem))
  exact ⟨fun hreap => (h.contains_iff t).mp hreap.registered, fun hmem =>
    ⟨hstate, fun hcurrent => hidle (.inl hcurrent), hresume,
      h.sched.waitQueue_eq_none_of_not_active hidle, hqueued, (h.contains_iff t).mpr hmem,
      fun _ hprocess => h.membership.contains_task hprocess⟩⟩

/-- **The reaper on a registered task** comes down to the destructor. -/
theorem reclaimHead_of_registered (hmem : k.taskRegistry.Mem t) :
    ∃ k', k.Expelled k' t ∧ k'.Inv platform k.sched.current ∧
      reclaimHead k = Call.andThen (taskDestroy k' t) (Kernel.fail (-12)) fun k =>
        (0, { k with lifecycle := k.lifecycle.pop.2 }) := by
  obtain ⟨k₁, k₂, hdetach, hunregister, hexpelled, hinv⟩ :=
    h.expelled hmem (h.head_ended hitems).2.2.2
  refine ⟨k₂, hexpelled, hinv, ?_⟩
  rw [reclaimHead_of_reapable (h.head_ended hitems).1 ((h.reapable_iff hitems).mpr hmem),
    releaseOwners, hdetach, Call.andThen_zero, hunregister, Call.andThen_zero]

omit h in
/-- What the destructor leaves of an expelled task. -/
theorem Kernel.Expelled.reclaimed {k₂ : Kernel} (hexpelled : k.Expelled k₂ t)
    {v : Vmm} {task : Task} (hinv : (k₂.refit v t task).Inv platform k.sched.current) :
    Kernel.Reclaimed platform k (k₂.refit v t task) t ∧
      Kernel.Reclaimed platform k { k₂.refit v t task with lifecycle := k₂.lifecycle.pop.2 } t ∧
      k₂.lifecycle.pop.2.items = rest := by
  have hcurrent : (k₂.refit v t task).sched.current = k.sched.current := hexpelled.current
  have htasks : ∀ u, u ≠ t → (k₂.refit v t task).task u = k.task u := by
    intro u hu
    show Function.update k₂.sched.tasks t task u = _
    rw [Function.update_of_ne hu, hexpelled.sched]
    exact Function.update_of_ne hu _ _
  have hitems₂ : (k₂.refit v t task).lifecycle.items = t :: rest := by
    show k₂.lifecycle.items = _
    rw [hexpelled.lifecycle, hitems]
  obtain ⟨hretired, hrest⟩ := hinv.retire hitems₂
  exact ⟨⟨⟨hcurrent, hinv⟩, htasks, hexpelled.registry⟩,
    ⟨⟨hcurrent, hretired⟩, htasks, hexpelled.registry⟩, hrest⟩

/-- The reaper on a registered task, whatever is mapped at its stack. -/
theorem reclaimHead_cases (hmem : k.taskRegistry.Mem t) :
    ∃ code k', reclaimHead k = (code, k') ∧ Kernel.Reclaimed platform k k' t ∧
      (code = 0 ∧ k'.lifecycle.items = rest ∨
        code = -12 ∧ k'.lifecycle.items = k.lifecycle.items) := by
  obtain ⟨k₂, hexpelled, hinv, heq⟩ := reclaimHead_of_registered h hitems hmem
  obtain ⟨code, v, task, hcode, hdestroy, hinv'⟩ := hexpelled.destroyed h hmem hinv
  obtain ⟨hkept, hretired, hrest⟩ := hexpelled.reclaimed hitems hinv'
  rw [heq, hdestroy]
  rcases hcode with rfl | rfl
  · exact ⟨0, _, rfl, hretired, .inl ⟨rfl, hrest⟩⟩
  · refine ⟨-12, _, rfl, hkept, .inr ⟨rfl, ?_⟩⟩
    exact congrArg TaskQueue.items hexpelled.lifecycle

/-- **The reaper on a task whose stack is mapped as it was constructed** succeeds, and
takes the translations of that stack away. -/
theorem reclaimHead_of_mapped (hmem : k.taskRegistry.Mem t)
    (hmapped : StackMapped platform.root (k.task t).kernelStackBase k.vmm.paging
      (k.task t).kernelStackPages) :
    ∃ k', reclaimHead k = (0, k') ∧ Kernel.Reclaimed platform k k' t ∧ k'.lifecycle.items = rest ∧
      k.vmm.paging.Vacates platform.root (k.task t).kernelStackBase stackPages k'.vmm.paging := by
  have hreap := (h.reapable_iff hitems).mpr hmem
  obtain ⟨k₂, hexpelled, hinv, heq⟩ := reclaimHead_of_registered h hitems hmem
  obtain ⟨hspace, hbase⟩ := h.stack t hmem
  obtain ⟨hid, hmax⟩ := h.id_valid hmem
  have hself := hexpelled.task_eq
  have hqueued : k₂.sched.runqueue.contains t = false := by
    rw [hexpelled.sched]
    exact hreap.queued
  have hregistered : taskRegistryContains k₂ t = false := by
    rw [← Bool.not_eq_true, hinv.contains_iff]
    exact hexpelled.not_mem
  obtain ⟨v, hv, hdestroy, hlookup⟩ := taskDestroy_of_mapped hself hinv.memory hspace
    (by rw [hbase]; exact taskStackVirtualFor_ne_zero _ hid hmax)
    (by rw [hbase]; exact stackWindow_taskStackVirtualFor _ hid hmax) (h.stackPage_mem hmem)
    (by rw [hexpelled.vmm]; exact hmapped) (by rw [hexpelled.current]; exact hreap.current)
    (by simp [hreap.resume]) (.inr hreap.state) hreap.waits rfl hqueued hregistered
  rw [hexpelled.vmm] at hlookup
  have hinv' : (k₂.refit v t (Task.reclaimed { k.task t with process := none })).Inv platform
      k.sched.current := hinv.overwrite hexpelled.not_mem (by rw [hself]) rfl nofun nofun rfl nofun
    (fun _ => ⟨rfl, rfl, h.managed t (.inl hmem)⟩) hv
  obtain ⟨-, hretired, hrest⟩ := hexpelled.reclaimed hitems hinv'
  rw [heq, hdestroy]
  exact ⟨_, rfl, hretired, hrest, hlookup⟩

end Reaper

/-- The reaper keeps interrupts off while it works. -/
theorem Kernel.Reclaimed.masked {k' : Kernel}
    (h : Kernel.Reclaimed platform { k with sched := k.sched.irqSave } k' t) (flag : Bool) :
    Kernel.Reclaimed platform k { k' with sched := k'.sched.irqRestore flag } t :=
  ⟨⟨h.sound.current, h.sound.inv.interrupts flag⟩, h.tasks, h.registry⟩

section Reap

variable (h : k.Inv platform k.sched.current)

include h

/-- **`lifecycle_reap_one`** finds nothing to do, or works on the first task of the queue.
If that task is still registered, it is reclaimed; it stays in the queue when its stack
turns out to be damaged, and is found unregistered from then on. -/
theorem lifecycleReapOne_cases :
    (k.lifecycle.items = [] ∧ lifecycleReapOne k = (1, k)) ∨
      ∃ t rest, k.lifecycle.items = t :: rest ∧
        ((¬ k.taskRegistry.Mem t ∧ ∃ code, lifecycleReapOne k = (code, k)) ∨
          k.taskRegistry.Mem t ∧ ∃ code k', lifecycleReapOne k = (code, k') ∧
            Kernel.Reclaimed platform k k' t ∧ (code = 0 ∧ k'.lifecycle.items = rest ∨
              code = -12 ∧ k'.lifecycle.items = k.lifecycle.items)) := by
  unfold lifecycleReapOne
  rw [if_neg (by simp [h.lifecycle]), h.pending.ring.count]
  cases hitems : k.lifecycle.items with
  | nil => exact .inl ⟨rfl, if_pos rfl⟩
  | cons t rest =>
      rw [if_neg (by simp)]
      refine .inr ⟨t, rest, rfl, ?_⟩
      have hmasked := h.interrupts false
      by_cases hmem : k.taskRegistry.Mem t
      · obtain ⟨code, k', heq, hreclaimed, hcode⟩ := reclaimHead_cases hmasked hitems hmem
        refine .inr ⟨hmem, code, _, ?_, hreclaimed.masked k.sched.interruptFlag, ?_⟩
        · show ((reclaimHead _).1, _) = _
          rw [Sched.irqSave, heq]
        · rw [← hitems]
          exact hcode
      · refine .inl ⟨hmem, ?_⟩
        obtain ⟨code, -, heq⟩ := reclaimHead_of_not_reapable (hmasked.head_ended hitems).1
          fun hreap => hmem ((hmasked.reapable_iff hitems).mp hreap)
        refine ⟨code, ?_⟩
        show ((reclaimHead _).1, _) = _
        rw [Sched.irqSave, heq]
        rfl

/-- The reaper, when the stack of the first task is mapped as it was constructed. -/
theorem lifecycleReapOne_of_mapped {rest : List TaskRef} (hitems : k.lifecycle.items = t :: rest)
    (hmem : k.taskRegistry.Mem t)
    (hmapped : StackMapped platform.root (k.task t).kernelStackBase k.vmm.paging
      (k.task t).kernelStackPages) :
    ∃ k', lifecycleReapOne k = (0, k') ∧ Kernel.Reclaimed platform k k' t ∧
      k'.lifecycle.items = rest ∧
      k.vmm.paging.Vacates platform.root (k.task t).kernelStackBase stackPages k'.vmm.paging := by
  unfold lifecycleReapOne
  rw [if_neg (by simp [h.lifecycle]), h.pending.ring.count, hitems, if_neg (by simp)]
  obtain ⟨k', heq, hreclaimed, hrest, hlookup⟩ :=
    reclaimHead_of_mapped (h.interrupts false) hitems hmem hmapped
  refine ⟨_, ?_, hreclaimed.masked k.sched.interruptFlag, hrest, hlookup⟩
  show ((reclaimHead _).1, _) = _
  rw [Sched.irqSave, heq]

end Reap

/-! ## The end of a task -/

/-- Who the scheduler works for, and what it does not touch. -/
structure Kernel.Rescheduled (k k' : Kernel) : Prop where
  vmm : k'.vmm = k.vmm
  registry : k'.taskRegistry = k.taskRegistry
  identity : ∀ u, (k'.task u).identity = (k.task u).identity

/-- The kernel after `task_exit` of the running task. -/
def Kernel.exited (k : Kernel) (t : TaskRef) : Kernel :=
  { k with
    sched := k.sched.irqSave.setTask t
      { k.sched.irqSave.tasks t with state := .terminated, resumeAuthority := .none } }

section Exit

variable (h : k.Inv platform k.sched.current) (hcurrent : k.sched.current = some t)

include h hcurrent

/-- The running task is not in the queue of the reaper. -/
theorem Kernel.Inv.current_not_pending : t ∉ k.lifecycle.items := by
  intro hpending
  have hrunning : (k.task t).state = .running := (h.sched.running t).mp hcurrent
  rw [(h.ended t hpending).1] at hrunning
  cases hrunning

/-- `task_exit` of the running task does not fail. -/
theorem taskExit_current :
    taskExit k.sched.irqSave t = some (k.exited t).sched ∧ k.sched.Moves (k.exited t).sched ∧
      (k.exited t).Inv platform none := by
  have hrunning : (k.task t).state = .running := (h.sched.running t).mp hcurrent
  have hmasked : k.sched.irqSave.Inv (some t) k.sched.runqueue.items
      fun q => (k.sched.waitQueues q).items := by
    rw [← hcurrent]
    exact h.sched.of_eq rfl rfl rfl
  obtain ⟨hexit, hsched⟩ := hmasked.exit
  have hmoves : k.sched.Moves (k.exited t).sched :=
    Sched.Moves.of_update (by rw [hrunning]; exact nofun) rfl rfl fun _ hu => hu
  exact ⟨hexit, hmoves, h.reschedule hsched (.inl rfl) hmoves⟩

/-- The ended task is taken by the reaper, if there is room for it. -/
theorem publish_exited :
    lifecyclePublishTerminatedTask (k.exited t) t =
      if taskMaxTasks ≤ k.lifecycle.items.length then (-4, k.exited t)
      else (0, { k.exited t with lifecycle := (k.exited t).lifecycle.push t }) := by
  have hmem : k.taskRegistry.Mem t := h.active t (.inl hcurrent)
  obtain ⟨-, -, hinv⟩ := taskExit_current h hcurrent
  have hself : (k.exited t).task t =
      { k.task t with state := .terminated, resumeAuthority := .none } :=
    Function.update_self _ _ _
  have hmanaged : ((k.exited t).task t).lifecycleMode = .managed := by
    rw [hself]
    exact h.managed t (.inl hmem)
  have hcontains : (k.exited t).lifecycle.contains t = false := by
    rw [← Bool.not_eq_true, hinv.pending.contains_iff]
    exact h.current_not_pending hcurrent
  unfold lifecyclePublishTerminatedTask
  rw [if_neg (by simp [hinv.lifecycle]), if_neg (by rw [hself]; simp),
    if_neg (not_not.mpr hmanaged), hinv.pending.ring.count, hcontains,
    (hinv.contains_iff t).mpr hmem]
  rfl

/-- **The end of the running task.**  It is published to the reaper, unless the queue of
the reaper is full, and leaves the CPU to the first task of the runqueue.  The CPU is
halted when the queue is full or nobody is runnable. -/
theorem taskBootstrapExit_cases (registers : Context) :
    (∃ k', k.taskBootstrapExit t registers = (.halts, k') ∧ k.Rescheduled k' ∧
        k'.Inv platform none ∧ k'.sched.current = some t ∧
        (taskMaxTasks ≤ k.lifecycle.items.length ∧ k'.lifecycle = k.lifecycle ∨
          k.lifecycle.items.length < taskMaxTasks ∧ k.sched.runqueue.items = [] ∧
            k'.lifecycle.items = k.lifecycle.items ++ [t])) ∨
      ∃ n k' continuation, k.taskBootstrapExit t registers = (.resumes continuation, k') ∧
        k.Rescheduled k' ∧ k'.Sound platform (some n) ∧ n ≠ t ∧
        k.lifecycle.items.length < taskMaxTasks ∧
        k'.lifecycle.items = k.lifecycle.items ++ [t] := by
  have hmem : k.taskRegistry.Mem t := h.active t (.inl hcurrent)
  have hnot := h.current_not_pending hcurrent
  obtain ⟨hexit, hmoves₁, hinv₁⟩ := taskExit_current h hcurrent
  have hpublish := publish_exited h hcurrent
  set k₁ : Kernel := k.exited t with hk₁
  have hself₁ : k₁.task t = { k.task t with state := .terminated, resumeAuthority := .none } :=
    Function.update_self _ _ _
  have hmanaged : (k₁.task t).lifecycleMode = .managed := by
    rw [hself₁]
    exact h.managed t (.inl hmem)
  have hexit₁ : k.taskBootstrapExit t registers =
      if (lifecyclePublishTerminatedTask k₁ t).1 ≠ 0 then
        (.halts, (lifecyclePublishTerminatedTask k₁ t).2)
      else (lifecyclePublishTerminatedTask k₁ t).2.leaveCpu t registers := by
    rw [Kernel.taskBootstrapExit, hexit]
    exact if_pos hmanaged
  rw [hexit₁, hpublish]
  by_cases hfull : taskMaxTasks ≤ k.lifecycle.items.length
  · rw [if_pos hfull]
    exact .inl ⟨k₁, rfl, ⟨rfl, rfl, hmoves₁.identity⟩, hinv₁, hcurrent, .inl ⟨hfull, rfl⟩⟩
  rw [if_neg hfull]
  dsimp only
  rw [if_neg (not_not.mpr rfl)]
  obtain ⟨hinv₂, hitems⟩ := hinv₁.publish hmem (by rw [hself₁]) (by rw [hself₁]) hnot
    (Nat.lt_of_not_le hfull)
  set k₂ : Kernel := { k₁ with lifecycle := k₁.lifecycle.push t } with hk₂
  -- `scheduler_exit_current`
  have hstate₂ : (k₂.sched.tasks t).state = .terminated := by
    show (k₁.task t).state = _
    rw [hself₁]
  rcases hinv₂.sched.exitCurrent hcurrent hstate₂ rfl registers with
    ⟨hempty, heq⟩ | ⟨n, rest, continuation, s', hready, heq, hhandoff, hsched'⟩
  · left
    refine ⟨{ k₂ with sched := k₂.sched.irqSave }, ?_, ⟨rfl, rfl, hmoves₁.identity⟩,
      hinv₂.interrupts false, hcurrent, .inr ⟨Nat.lt_of_not_le hfull, hempty, hitems⟩⟩
    rw [Kernel.leaveCpu, heq]
  · right
    have hmoves₂ : k₂.sched.Moves s' := by
      refine Sched.Moves.of_handoff hhandoff rfl (fun hended => ⟨hended, rfl⟩) fun u hu => ?_
      rcases hsched'.active_iff.mp hu with hcurrent' | hmem' | hwaiting
      · rw [hhandoff.current, Option.some.injEq] at hcurrent'
        subst hcurrent'
        exact .inr (.inl (by rw [hready]; exact List.mem_cons_self))
      · exact .inr (.inl (by rw [hready]; exact List.mem_cons_of_mem n hmem'))
      · exact .inr (.inr hwaiting)
    have hinv' := hinv₂.reschedule hsched' (.inr rfl) hmoves₂
    rw [hhandoff.current] at hinv'
    refine ⟨n, { k₂ with sched := s' }, continuation, ?_, ⟨rfl, rfl, fun u => ?_⟩,
      ⟨hhandoff.current, hinv'⟩, hhandoff.distinct, Nat.lt_of_not_le hfull, hitems⟩
    · rw [Kernel.leaveCpu, heq]
    · exact (hmoves₂.identity u).trans (hmoves₁.identity u)

end Exit

end Batos
