import Batos.Process.Publication

/-!
# The reaper on arbitrary states

`lifecycle_reap_one` checks the task at the head of its queue, and then releases its
owners one after the other: the process, the registry, the stack.  This module says when
a failure leaves everything as it was, in states nobody has promised anything about: the
registries, the processes, the page tables and the queue may hold anything.

A failed check leaves the state alone (`reclaimHead_of_not_reapable`).  Two failures come
after the first release.  The registry can refuse to let the task go, if its count of
tasks is zero, and the destructor can refuse, if a page of the stack is not mapped, page
by page, to the frame recorded for it: the reaper checks neither beforehand.
`lifecycleReapOne_atomic_iff` says that there is no other way to lose something.
-/

namespace Batos

/-! ## The owners in turn -/

/-- What the release of a task by its process leaves. -/
structure Kernel.Detached (k k' : Kernel) (t : TaskRef) : Prop where
  sched : k'.sched = k.sched.setTask t { k.task t with process := none }
  vmm : k'.vmm = k.vmm
  registry : k'.taskRegistry = k.taskRegistry

section Owners

variable {k : Kernel} {t : TaskRef}

/-- A process that is not registered keeps its task. -/
theorem processDetachTask_unregistered {p : ProcessRef} (h : processRegistryContains k p = false) :
    processDetachTask k p t = (-2, k) := if_pos h

/-- A registered process releases a task it lists. -/
theorem processDetachTask_of_contains {p : ProcessRef}
    (hregistered : processRegistryContains k p = true)
    (hlisted : processContainsTask k p t = true) :
    ∃ k', processDetachTask k p t = (0, k') ∧ k.Detached k' t := by
  rw [processContainsTask, Bool.and_eq_true, decide_eq_true_eq] at hlisted
  obtain ⟨hindex, hprocess⟩ := hlisted
  obtain ⟨index, hindex⟩ := Option.isSome_iff_exists.mp hindex
  have hcount : (k.processes p).tasks.count ≠ 0 := by
    intro hzero
    rw [DenseArray.indexOf, hzero] at hindex
    cases hindex
  unfold processDetachTask
  rw [if_neg (by simp [hregistered]), hindex]
  dsimp only
  rw [if_neg (not_not.mpr hprocess), if_neg hcount]
  exact ⟨_, rfl, rfl, rfl, rfl⟩

/-- The registry releases a task it finds, unless its count is zero. -/
theorem taskRegistryUnregister_of_contains (h : taskRegistryContains k t = true) :
    ∃ index, k.taskRegistry.slots index = some t ∧
      IdTable.slotOf taskMaxTasks (k.task t).id.toNat = some index ∧
      taskRegistryUnregister k t =
        if k.taskRegistry.count = 0 then (-1, k)
        else (0, { k with taskRegistry := k.taskRegistry.erase index }) := by
  rw [taskRegistryContains, Bool.and_eq_true, decide_eq_true_eq, IdTable.find,
    Option.bind_eq_some_iff] at h
  obtain ⟨hinit, index, hindex, hslot⟩ := h
  refine ⟨index, hslot, hindex, ?_⟩
  unfold taskRegistryUnregister
  rw [if_neg (by simp [hinit]), hindex]
  dsimp only
  rw [if_neg (not_not.mpr hslot)]

/-- **When the destructor gives a released task's stack back**: exactly when the stack is
intact.  The registry is not its business. -/
theorem taskDestroy_iff (hstate : (k.task t).state = .terminated)
    (hcurrent : k.sched.current ≠ some t) (hresume : (k.task t).resumeAuthority = .none)
    (hwaits : (k.task t).waitQueue = none)
    (hprocess : (k.task t).process = none) (hqueued : k.sched.runqueue.contains t = false)
    (hregistered : taskRegistryContains k t = false) :
    ((taskDestroy k t).1 = 0 ↔ StackIntact k.vmm.paging (k.task t)) ∧
      (taskDestroy k t).2.taskRegistry = k.taskRegistry := by
  have hvalid : StackIntact k.vmm.paging (k.task t) → taskValidateReclaim k t = true := by
    intro hintact
    by_cases hbase : (k.task t).kernelStackBase = 0
    · simp [taskValidateReclaim, hcurrent, hresume, hstate, hwaits, hbase]
    have htranslates : ∀ page, vmmTranslate k.vmm.paging (k.task t).addressSpace
        (stackPage (k.task t).kernelStackBase page) = some ((k.task t).kernelStackPages page) := by
      intro page
      obtain ⟨haligned, entry, hleaf, hentry⟩ := hintact hbase page
      rw [vmmTranslate_of_page hleaf, haligned, hentry]
      simp
    simp [taskValidateReclaim, hcurrent, hresume, hstate, hwaits, htranslates]
  by_cases hd : k.Destructible t
  · by_cases hbase : (k.task t).kernelStackBase = 0
    · rw [taskDestroy_of_base_eq_zero hd hbase]
      exact ⟨iff_of_true rfl fun h => absurd hbase h, rfl⟩
    obtain ⟨code, frames, paging, hunmap⟩ := taskUnmapStack_eq k.vmm.paging (k.task t)
    rw [← taskUnmapStack_iff k.vmm.paging hbase, taskDestroy_of_unmap hd hbase hunmap, hunmap]
    split_ifs with hcode
    · exact ⟨iff_of_true rfl hcode, rfl⟩
    · exact ⟨iff_of_false (by simp) hcode, rfl⟩
  · -- the validation refuses a stack that is not intact
    rw [taskDestroy_refused hd]
    refine ⟨iff_of_false (by simp) fun hintact => hd ?_, rfl⟩
    exact ⟨hvalid hintact, hprocess, hqueued, hregistered⟩

end Owners

/-! ## Failures that lose something -/

/-- The task keeps its owners: its place in the registry, its process and its place
there, its stack with the translations and the frames. -/
structure TaskKept (k k' : Kernel) (t : TaskRef) : Prop where
  registered : ∀ index, k'.taskRegistry.slots index = some t ↔ k.taskRegistry.slots index = some t
  process : (k'.task t).process = (k.task t).process
  listed : ∀ p, (k'.processes p).tasks.indexOf t = (k.processes p).tasks.indexOf t
  stack : (k'.task t).kernelStackBase = (k.task t).kernelStackBase ∧
    (k'.task t).kernelStackPages = (k.task t).kernelStackPages
  mapping : ∀ page,
    k'.vmm.paging.tables.lookup (k.task t).addressSpace
    (stackPage (k.task t).kernelStackBase page) =
      k.vmm.paging.tables.lookup (k.task t).addressSpace (stackPage (k.task t).kernelStackBase page)
  frames : k'.vmm.paging.pmm = k.vmm.paging.pmm

/-- The task at the head keeps its owners, the queue its entries, and the caller its
interrupt flag. -/
structure ReapRetained (k k' : Kernel) : Prop where
  head : ∀ t, k.lifecycle.ring.slots k.lifecycle.ring.head = some t → TaskKept k k' t
  pending : k'.lifecycle = k.lifecycle
  interrupts : k'.sched.interruptFlag = k.sched.interruptFlag

theorem ReapRetained.refl (k : Kernel) : ReapRetained k k :=
  ⟨fun _ _ => ⟨fun _ => Iff.rfl, rfl, fun _ => rfl, ⟨rfl, rfl⟩, fun _ => rfl, rfl⟩, rfl, rfl⟩

/-- What the reaper does not check: if its checks pass and the process is registered, the
registry counts the task and the stack is intact; a registry that counts no task may at
least not face a task that has a process to lose. -/
def Kernel.Releasable (k : Kernel) : Prop :=
  ∀ t, k.lifecycle.ring.slots k.lifecycle.ring.head = some t → k.Reapable t →
    (∀ p, (k.task t).process = some p → processRegistryContains k p = true) →
    if k.taskRegistry.count = 0 then (k.task t).process = none
    else StackIntact k.vmm.paging (k.task t)

/-- What a late failure has lost. -/
def LostOwner (k k' : Kernel) (t : TaskRef) : Prop :=
  ((k.task t).process ≠ none ∧ (k'.task t).process = none) ∨
    ∃ index, k.taskRegistry.slots index = some t ∧ k'.taskRegistry.slots index = none

/-- **The release of the head.**  If the owners can all be released, the call succeeds or
changes nothing; otherwise it fails and an owner is lost. -/
theorem reclaimHead_outcome (k : Kernel) :
    (k.Releasable ∧ ((reclaimHead k).1 = 0 ∨ ∃ code, code < 0 ∧ reclaimHead k = (code, k))) ∨
      ¬ k.Releasable ∧ (reclaimHead k).1 < 0 ∧ ∃ t,
        k.lifecycle.ring.slots k.lifecycle.ring.head = some t ∧
        LostOwner k (reclaimHead k).2 t := by
  cases hslot : k.lifecycle.ring.slots k.lifecycle.ring.head with
  | none =>
      refine .inl ⟨fun t h => ?_, .inr ⟨-2, by simp, by rw [reclaimHead, hslot]⟩⟩
      rw [hslot] at h
      cases h
  | some t =>
      have hsafe : k.Releasable ↔ (k.Reapable t →
          (∀ p, (k.task t).process = some p → processRegistryContains k p = true) →
          if k.taskRegistry.count = 0 then (k.task t).process = none
          else StackIntact k.vmm.paging (k.task t)) := by
        refine ⟨fun h => h t hslot, fun h u hu => ?_⟩
        obtain rfl := Option.some.inj (hslot.symm.trans hu)
        exact h
      by_cases hreap : k.Reapable t
      swap
      · exact .inl ⟨hsafe.mpr fun h => absurd h hreap,
          .inr (reclaimHead_of_not_reapable hslot hreap)⟩
      have heq : reclaimHead k = releaseOwners k t := reclaimHead_of_reapable hslot hreap
      rw [releaseOwners] at heq
      by_cases howned : ∀ p, (k.task t).process = some p → processRegistryContains k p = true
      swap
      · -- the process refuses
        refine .inl ⟨hsafe.mpr fun _ h => absurd h howned, .inr ⟨-10, by simp, ?_⟩⟩
        push Not at howned
        obtain ⟨p, hprocess, hunregistered⟩ := howned
        rw [heq, detachOwner, hprocess]
        dsimp only
        rw [processDetachTask_unregistered (by simpa using hunregistered)]
        rfl
      rw [hsafe, forall_prop_of_true hreap, forall_prop_of_true howned]
      obtain ⟨k₁, hdetach, hdetached, hsame⟩ : ∃ k₁, detachOwner k t = (0, k₁) ∧ k.Detached k₁ t ∧
          ((k.task t).process = none → k₁ = k) := by
        unfold detachOwner
        cases hprocess : (k.task t).process with
        | none =>
            refine ⟨k, rfl, ⟨?_, rfl, rfl⟩, fun _ => rfl⟩
            rw [← hprocess]
            exact (congrArg (fun tasks => { k.sched with tasks := tasks })
              (Function.update_eq_self t k.sched.tasks)).symm
        | some p =>
            obtain ⟨k₁, hdetach, hdetached⟩ :=
              processDetachTask_of_contains (howned p hprocess) (hreap.listed p hprocess)
            exact ⟨k₁, hdetach, hdetached, by rintro ⟨⟩⟩
      have hself : k₁.task t = { k.task t with process := none } := by
        show k₁.sched.tasks t = _
        rw [hdetached.sched, Sched.setTask_self]
      have hregistered : taskRegistryContains k₁ t = true := by
        unfold taskRegistryContains
        rw [hself, hdetached.registry]
        exact hreap.registered
      obtain ⟨index, hindex, hkey, hunregister⟩ := taskRegistryUnregister_of_contains hregistered
      rw [hdetach, Call.andThen_zero, hunregister] at heq
      rw [hdetached.registry] at hindex heq
      by_cases hcount : k.taskRegistry.count = 0
      · -- the registry refuses, after the process has let go
        rw [if_pos hcount] at heq ⊢
        have hfail : reclaimHead k = (-11, k₁) := heq
        by_cases hprocess : (k.task t).process = none
        · refine .inl ⟨hprocess, .inr ⟨-11, by simp, ?_⟩⟩
          rw [hfail, hsame hprocess]
        · refine .inr ⟨hprocess, by simp [hfail], t, rfl, .inl ⟨hprocess, ?_⟩⟩
          rw [hfail, hself]
      · rw [if_neg hcount] at heq ⊢
        set k₂ : Kernel := { k₁ with taskRegistry := k.taskRegistry.erase index } with hk₂
        have herased : k₂.taskRegistry.slots index = none := by
          rw [hk₂, IdTable.slots_erase, if_pos rfl]
        have hreleased : taskRegistryContains k₂ t = false := by
          rw [taskRegistryContains, IdTable.find_of_slotOf hkey, herased]
          simp
        obtain ⟨hiff, hregistry⟩ := @taskDestroy_iff k₂ t (by rw [hself]; exact hreap.state)
          (by rw [hdetached.sched]; exact hreap.current) (by rw [hself]; exact hreap.resume)
          (by rw [hself]; exact hreap.waits) (by rw [hself])
          (by rw [hdetached.sched]; exact hreap.queued)
          hreleased
        have hstack : StackIntact k₂.vmm.paging (k₂.task t) ↔
            StackIntact k.vmm.paging (k.task t) := by
          show StackIntact k₁.vmm.paging (k₁.task t) ↔ _
          rw [hself, hdetached.vmm]
          exact Iff.rfl
        rw [hstack] at hiff
        rw [Call.andThen_zero] at heq
        by_cases hintact : StackIntact k.vmm.paging (k.task t)
        · refine .inl ⟨hintact, .inl ?_⟩
          rw [heq, Call.andThen, if_neg (not_not.mpr (hiff.mpr hintact))]
        · -- the destructor refuses, after the registry has let go
          have hfail : reclaimHead k = (-12, (taskDestroy k₂ t).2) := by
            rw [heq, Call.andThen, if_pos fun hzero => hintact (hiff.mp hzero)]
            rfl
          refine .inr ⟨hintact, by simp [hfail], t, rfl, .inr ⟨index, hindex, ?_⟩⟩
          rw [hfail]
          exact (congrArg (fun table => table.slots index) hregistry).trans herased

/-- **When a failed reap changes nothing.**  A negative code of `lifecycle_reap_one` leaves
the owners of the task, the queue and the interrupt flag as they were, exactly when what
the reaper does not check happens to be in order. -/
theorem lifecycleReapOne_atomic_iff (k : Kernel) :
    ((lifecycleReapOne k).1 < 0 → ReapRetained k (lifecycleReapOne k).2) ↔
      (k.lifecycle.initialized = true → k.lifecycle.ring.count ≠ 0 → k.Releasable) := by
  unfold lifecycleReapOne
  split_ifs with hinit hcount
  · refine iff_of_true (fun _ => ReapRetained.refl k) fun h => ?_
    rw [hinit] at h
    cases h
  · exact iff_of_true (fun _ => ReapRetained.refl k) fun _ h => absurd hcount h
  have hready : k.lifecycle.initialized = true := by simpa using hinit
  rw [forall_prop_of_true hready, forall_prop_of_true hcount]
  -- with interrupts off the state is read the same
  set k' : Kernel := { k with sched := k.sched.irqSave } with hk'
  have hsafe : k'.Releasable ↔ k.Releasable := by
    have hreap : ∀ t, k'.Reapable t ↔ k.Reapable t := fun t =>
      ⟨fun ⟨h₁, h₂, h₃, h₄, h₅, h₆, h₇⟩ => ⟨h₁, h₂, h₃, h₄, h₅, h₆, h₇⟩,
        fun ⟨h₁, h₂, h₃, h₄, h₅, h₆, h₇⟩ => ⟨h₁, h₂, h₃, h₄, h₅, h₆, h₇⟩⟩
    unfold Kernel.Releasable
    simp only [hreap]
    exact Iff.rfl
  have hmasked : k.masked reclaimHead = ((reclaimHead k').1,
      { (reclaimHead k').2 with
        sched := (reclaimHead k').2.sched.irqRestore k.sched.interruptFlag }) := rfl
  rw [hmasked]
  rcases reclaimHead_outcome k' with ⟨hreleasable, hcode | ⟨code, -, heq⟩⟩ | ⟨hlost, hcode,
    t, hslot, howner⟩
  · exact iff_of_true (fun h => absurd h (by rw [hcode]; simp)) (hsafe.mp hreleasable)
  · refine iff_of_true (fun _ => ?_) (hsafe.mp hreleasable)
    rw [heq]
    exact ReapRetained.refl k
  · refine iff_of_false (fun h => ?_) fun h => hlost (hsafe.mpr h)
    have hkept := (h hcode).head t hslot
    rcases howner with ⟨hprocess, hnone⟩ | ⟨index, hindex, hnone⟩
    · exact hprocess (hkept.process.symm.trans hnone)
    · have hback := (hkept.registered index).mpr hindex
      rw [hnone] at hback
      cases hback

/-- A kernel task that has ended and waits for the reaper, while a page of its stack is no
longer mapped. -/
def demoTorn : Kernel :=
  { demoUnit.kernel with
    sched := { demoUnit.kernel.sched.setTask 7
      { demoUnit.kernel.task 7 with state := .terminated, resumeAuthority := .none } with
        runqueue := {} }
    vmm := { demoUnit.kernel.vmm with
      paging := (vmmUnmapPage demoUnit.kernel.vmm.paging 0x2000
        (stackPage (demoUnit.kernel.task 7).kernelStackBase 3)).2 }
    lifecycle := demoUnit.kernel.lifecycle.push 7 }

/-- The reaper fails on it after the registry and the process have released the task. -/
theorem torn_task_half_released :
    (lifecycleReapOne demoTorn).1 = -12 ∧ demoTorn.taskRegistry.slots 0 = some 7 ∧
      (lifecycleReapOne demoTorn).2.taskRegistry.slots 0 = none ∧
      (demoTorn.task 7).process = some 5 ∧ ((lifecycleReapOne demoTorn).2.task 7).process =
        none := by
  refine ⟨?_, ?_, ?_, ?_, ?_⟩
  all_goals decide +kernel

end Batos
