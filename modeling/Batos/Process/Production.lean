import Batos.Process.Publication
import Batos.Process.Stacks

/-!
# The reaper in production

The operations of a kernel in production: execution units are constructed under ids that
are not in use, the scheduler passes the CPU on, tasks end, and the reaper takes the stacks
of the ended ones away.  Others may use memory, as long as they leave the window of the
stacks alone.

The reaper checks nearly everything before it changes anything, and what it does not check
is the stack.  In production the stacks are in order (`Kernel.Stacked`): the stack of every
registered task is mapped as it was constructed, and the slots of all other ids are clear.
Constructors rely on the second half, since their rollback clears the slot, and the reaper
on the first.

What has ended is what has been reclaimed, followed by what waits for the reaper
(`KernelMachine.Tidy.ledger`).
-/

namespace Batos

open List

variable {k' k : Kernel} {platform : Platform} {owner : Option TaskRef} {t c : TaskRef}

/-! ## Stacks in order -/

/-- Registered tasks have their stacks, and nobody else has one. -/
structure Kernel.Stacked (platform : Platform) (k : Kernel) : Prop where
  mapped : ∀ t, k.taskRegistry.Mem t → StackMapped platform.root (k.task t).kernelStackBase
    k.vmm.paging (k.task t).kernelStackPages
  clear : ∀ tid : Word, tid ≠ 0 → tid.toNat ≤ taskMaxTasks →
    (∀ t, k.taskRegistry.Mem t → (k.task t).id ≠ tid) →
      SlotClear platform.root (taskStackVirtualFor platform.layout.toTaskLayout tid) k.vmm.paging

namespace Kernel.Stacked

variable {platform : Platform} {k k' : Kernel} {owner : Option TaskRef} {t : TaskRef}

/-- The same tasks are registered, with the same stacks, and the window looks the same. -/
theorem congr (h : k.Stacked platform) (hinv : k.Inv platform owner)
    (hmem : ∀ u, k'.taskRegistry.Mem u ↔ k.taskRegistry.Mem u)
    (hrecord : ∀ u, k.taskRegistry.Mem u → (k'.task u).stackRecord = (k.task u).stackRecord)
    (hlookup : ∀ va ∈ platform.layout.window, k'.vmm.paging.tables.lookup platform.root va =
      k.vmm.paging.tables.lookup platform.root va) : k'.Stacked platform := by
  refine ⟨fun u hu => ?_, fun tid hid hmax hnew page entry => ?_⟩
  · rw [hmem] at hu
    have hrec := hrecord u hu
    simp only [Task.stackRecord, Prod.mk.injEq] at hrec
    rw [hrec.2.2.1, hrec.2.2.2]
    exact (h.mapped u hu).congr fun page => hlookup _ (hinv.stackPage_mem hu page)
  · rw [hlookup _ (stackPage_mem_window _ hid hmax page)]
    refine h.clear tid hid hmax (fun u hu => ?_) page entry
    rw [← show (k'.task u).id = (k.task u).id from congrArg Prod.fst (hrecord u hu)]
    exact hnew u ((hmem u).mpr hu)

/-- The scheduler has worked. -/
theorem rescheduled (h : k.Stacked platform) (hinv : k.Inv platform owner)
    (hrescheduled : k.Rescheduled k') : k'.Stacked platform := by
  refine h.congr hinv (fun u => ?_) (fun u _ => ?_) (fun va _ => ?_)
  · rw [hrescheduled.registry]
  · have hrecord : (k'.task u).identity.stackRecord = (k.task u).identity.stackRecord := by
      rw [hrescheduled.identity u]
    exact hrecord
  · rw [hrescheduled.vmm]

/-- A new task is registered, with a stack in a slot that was free. -/
theorem publish (h : k.Stacked platform) (hinv : k.Inv platform owner)
    (hinv' : k'.Inv platform owner) (hfresh : ¬ k.taskRegistry.Mem t)
    (hnew : ∀ u, k.taskRegistry.Mem u → (k.task u).id ≠ (k'.task t).id)
    (hmem : ∀ u, k'.taskRegistry.Mem u ↔ u = t ∨ k.taskRegistry.Mem u)
    (htasks : ∀ u, u ≠ t → k'.task u = k.task u)
    (hmapped : StackMapped platform.root (k'.task t).kernelStackBase k'.vmm.paging
      (k'.task t).kernelStackPages)
    (hlookup : ∀ va, ¬ OnStack (k'.task t).kernelStackBase stackPages va →
      k'.vmm.paging.tables.lookup platform.root va = k.vmm.paging.tables.lookup platform.root va) :
    k'.Stacked platform := by
  have ht : k'.taskRegistry.Mem t := (hmem t).mpr (.inl rfl)
  obtain ⟨hid, hmax⟩ := hinv'.id_valid ht
  have hbase := (hinv'.stack t ht).2
  rw [hbase] at hlookup
  -- the slots of all other ids look as before
  have hother : ∀ tid : Word, tid ≠ 0 → tid.toNat ≤ taskMaxTasks → tid ≠ (k'.task t).id → ∀ page,
      k'.vmm.paging.tables.lookup platform.root
          (stackPage (taskStackVirtualFor platform.layout.toTaskLayout tid) page) =
        k.vmm.paging.tables.lookup platform.root
          (stackPage (taskStackVirtualFor platform.layout.toTaskLayout tid) page) := by
    intro tid htid hle hne page
    refine hlookup _ ?_
    rintro ⟨page', -, hpath⟩
    exact hne (samePath_slots _ htid hle hid hmax hpath).1
  refine ⟨fun u hu => ?_, fun tid htid hle hunused page entry => ?_⟩
  · rcases (hmem u).mp hu with rfl | hold
    · exact hmapped
    · have hut : u ≠ t := by
        rintro rfl
        exact hfresh hold
      obtain ⟨huid, humax⟩ := hinv.id_valid hold
      rw [htasks u hut]
      refine (h.mapped u hold).congr fun page => ?_
      rw [(hinv.stack u hold).2]
      exact hother _ huid humax (hnew u hold) page
  · rw [hother tid htid hle (hunused t ht).symm page]
    refine h.clear tid htid hle (fun u hu => ?_) page entry
    rw [← htasks u (by rintro rfl; exact hfresh hu)]
    exact hunused u ((hmem u).mpr (.inr hu))

/-- A task leaves the registry, and its stack is gone. -/
theorem retire (h : k.Stacked platform) (hinv : k.Inv platform owner) (ht : k.taskRegistry.Mem t)
    (hmem : ∀ u, k'.taskRegistry.Mem u ↔ k.taskRegistry.Mem u ∧ u ≠ t)
    (htasks : ∀ u, u ≠ t → k'.task u = k.task u)
    (hlookup : k.vmm.paging.Vacates platform.root (k.task t).kernelStackBase stackPages
      k'.vmm.paging) :
    k'.Stacked platform := by
  obtain ⟨hid, hmax⟩ := hinv.id_valid ht
  have hbase := (hinv.stack t ht).2
  refine ⟨fun u hu => ?_, fun tid htid hle hunused page entry hleaf => ?_⟩
  · obtain ⟨hold, hut⟩ := (hmem u).mp hu
    obtain ⟨huid, humax⟩ := hinv.id_valid hold
    rw [htasks u hut]
    refine (h.mapped u hold).congr fun page => (hlookup _).2 ?_
    rw [(hinv.stack u hold).2, hbase]
    rintro ⟨page', -, hpath⟩
    have hids := (samePath_slots _ huid humax hid hmax hpath).1
    exact hut (hinv.keyed.eq_of_key hold ht (congrArg BitVec.toNat hids))
  · by_cases hon : OnStack (k.task t).kernelStackBase stackPages
      (stackPage (taskStackVirtualFor platform.layout.toTaskLayout tid) page)
    · rw [(hlookup _).1 hon] at hleaf
      cases hleaf
    · rw [(hlookup _).2 hon] at hleaf
      refine h.clear tid htid hle (fun u hu => ?_) page entry hleaf
      by_cases hut : u = t
      · rw [hut]
        rintro rfl
        rw [hbase] at hon
        exact hon ⟨page, mem_finRange page, .refl _⟩
      · rw [← htasks u hut]
        exact hunused u ((hmem u).mpr ⟨hu, hut⟩)

end Kernel.Stacked

/-! ## The constructors -/

section Constructors

variable {platform : Platform} {k : Kernel} {p : ProcessRef} {t : TaskRef}
  {tid addressSpace entry : Word} (argument : Word)

theorem vmm_executionCreateTask (layout : KernelLayout)
    (h : taskCreateAccepts tid addressSpace entry = false) :
    (executionCreateTask layout k p t tid addressSpace entry argument).2.vmm = k.vmm := by
  unfold executionCreateTask
  split_ifs
  · rfl
  · rfl
  · rfl
  · rfl
  · rw [taskCreate_rejected layout t tid addressSpace entry argument h,
      Call.andThen_of_ne (by decide)]
    rfl

theorem vmm_executionCreateKernelTask (layout : KernelLayout) (hk : k.Enrolled) (pid : Word)
    (h : taskCreateAccepts tid addressSpace entry = false) :
    (executionCreateKernelTask layout k p t pid tid addressSpace entry argument).2.vmm = k.vmm := by
  have hprocess := vmm_processCreate hk p pid addressSpace
  unfold executionCreateKernelTask
  split_ifs
  · rfl
  · rfl
  cases hcreate : processCreate k p pid addressSpace with
  | mk code k₀ =>
      rw [hcreate] at hprocess
      by_cases hcode : code = 0
      swap
      · rw [Call.andThen_of_ne hcode]
        exact hprocess
      rw [hcode, Call.andThen_zero, taskCreate_rejected layout t tid addressSpace entry argument h,
        Call.andThen_of_ne (by decide)]
      have hterminate := vmm_processTerminate k₀ p
      rw [Call.andThen]
      split_ifs
      · exact hterminate.trans hprocess
      · have hdestroy := vmm_processDestroy (processTerminate k₀ p).2 p
        rw [Call.rolledBack, Call.andThen]
        split_ifs
        · exact hdestroy.trans (hterminate.trans hprocess)
        · exact hdestroy.trans (hterminate.trans hprocess)

/-- What a constructor does to the registry, the queue of the reaper and the stacks. -/
structure Kernel.Constructs (platform : Platform) (k k' : Kernel) : Prop where
  stacked : k'.Stacked platform
  registry : ∀ u, k.taskRegistry.Mem u → k'.taskRegistry.Mem u
  lifecycle : k'.lifecycle = k.lifecycle

variable (h : k.Stacked platform) (hinv : k.Inv platform k.sched.current) (hidle : k.Idle t)
  (hunused : ∀ u, k.taskRegistry.Mem u → (k.task u).id ≠ tid)

include h hinv hidle hunused

/-- A construction that has failed. -/
theorem Voided.constructs (hvoid : Voided platform k k' t tid)
    (hrefused : taskCreateAccepts tid addressSpace entry = false → k'.vmm = k.vmm)
    (haccepts : taskCreateAccepts tid addressSpace entry = true → tid ≠ 0 ∧
      tid.toNat ≤ taskMaxTasks) :
    k.Constructs platform k' := by
  obtain ⟨v, task, rfl, -, -, hquiet⟩ := hvoid
  refine ⟨h.congr hinv (fun _ => Iff.rfl) (fun u hu => ?_) fun va _ => ?_, fun _ hu => hu, rfl⟩
  · have hut : u ≠ t := by
      rintro rfl
      exact hidle.unregistered hu
    exact congrArg Task.stackRecord (Function.update_of_ne hut _ _)
  · cases hcall : taskCreateAccepts tid addressSpace entry with
    | false => rw [hrefused hcall]
    | true =>
        obtain ⟨hid, hmax⟩ := haccepts hcall
        exact hquiet (h.clear tid hid hmax hunused) va

/-- A construction that has succeeded. -/
theorem Published.constructs {argument : Word}
    (hpublished : Published platform k k' p t tid entry argument) : k.Constructs platform k' := by
  obtain ⟨index, frames, v, rfl, hfree, hid, -, hinv', hmapped, hlookup⟩ := hpublished
  set task := freshTask platform.layout.toTaskLayout tid platform.root entry argument
    frames with htask
  have hself : (k.published v p t index task).task t =
      { task with process := some p, lifecycleMode := .managed } := Function.update_self _ _ _
  have hmem : ∀ u, (k.published v p t index task).taskRegistry.Mem u ↔ u = t ∨
    k.taskRegistry.Mem u :=
    fun u => IdTable.mem_insert_of_free hfree
  refine ⟨h.publish hinv hinv' hidle.unregistered ?_ hmem
    (fun u hut => Function.update_of_ne hut _ _) ?_ ?_, fun u hu => (hmem u).mpr (.inr hu), rfl⟩
  · rw [hself]
    exact hunused
  · rw [hself]
    exact hmapped
  · rw [hself]
    exact hlookup

theorem executionCreateTask_constructs (p : ProcessRef) (addressSpace entry : Word) :
    k.Constructs platform
      (executionCreateTask platform.layout k p t tid addressSpace entry argument).2 := by
  have hvmm := @vmm_executionCreateTask k p t tid addressSpace entry argument platform.layout
  rcases executionCreateTask_cases hinv hidle p tid addressSpace entry argument with
    ⟨code, k', -, -, heq, hvoid⟩ | ⟨k', heq, hpublished⟩
  · rw [heq] at hvmm ⊢
    refine Voided.constructs h hinv hidle hunused hvoid hvmm fun haccepts => ?_
    obtain ⟨hid, hmax, -⟩ := taskCreateAccepts_iff.mp haccepts
    exact ⟨hid, hmax⟩
  · rw [heq]
    exact Published.constructs h hinv hidle hunused hpublished

theorem executionCreateKernelTask_constructs (p : ProcessRef) (pid addressSpace entry : Word) :
    k.Constructs platform
      (executionCreateKernelTask platform.layout k p t pid tid addressSpace entry argument).2 := by
  have hvmm := @vmm_executionCreateKernelTask k p t tid addressSpace entry argument platform.layout
    hinv.membership.enrolled pid
  rcases executionCreateKernelTask_cases hinv hidle p pid tid addressSpace entry argument with
    ⟨code, k₀, k', -, -, heq, hk₀, hvoid⟩ | ⟨k₀, k', heq, hcreate, hpublished⟩
  · rw [heq] at hvmm ⊢
    rcases hk₀ with rfl | ⟨hfree, rfl⟩
    · refine Voided.constructs h hinv hidle hunused hvoid hvmm fun haccepts => ?_
      obtain ⟨hid, hmax, -⟩ := taskCreateAccepts_iff.mp haccepts
      exact ⟨hid, hmax⟩
    · have hinv₀ := hinv.reprocess (hinv.membership.setProcess hfree {} rfl)
      obtain ⟨hstacked, hregistry, hlifecycle⟩ := Voided.constructs (k := k.setProcess p {})
        ⟨h.mapped, h.clear⟩ hinv₀ ⟨hidle.detached, hidle.unregistered, hidle.unqueued⟩ hunused hvoid
        hvmm fun haccepts => by
          obtain ⟨hid, hmax, -⟩ := taskCreateAccepts_iff.mp haccepts
          exact ⟨hid, hmax⟩
      exact ⟨hstacked, hregistry, hlifecycle⟩
  · rw [heq]
    rcases hinv.membership.create p pid addressSpace with
      ⟨code, k₁, hcode, hprocess, -⟩ | ⟨index, k₁, hprocess, -, -, hk₁, hmembership⟩
    · rw [hcreate] at hprocess
      exact absurd (congrArg Prod.fst hprocess).symm hcode
    rw [hcreate, Prod.mk.injEq] at hprocess
    obtain ⟨-, rfl⟩ := hprocess
    have hstacked₀ : k₀.Stacked platform := by
      rw [hk₁]
      exact ⟨h.mapped, h.clear⟩
    have hinv₀ : k₀.Inv platform k₀.sched.current := by
      rw [hk₁] at hmembership ⊢
      exact hinv.reprocess hmembership
    have hidle₀ : k₀.Idle t := by
      rw [hk₁]
      exact ⟨hidle.detached, hidle.unregistered, hidle.unqueued⟩
    have hunused₀ : ∀ u, k₀.taskRegistry.Mem u → (k₀.task u).id ≠ tid := by
      rw [hk₁]
      exact hunused
    obtain ⟨hstacked, hregistry, hlifecycle⟩ :=
      Published.constructs hstacked₀ hinv₀ hidle₀ hunused₀ hpublished
    rw [hk₁] at hregistry hlifecycle
    exact ⟨hstacked, hregistry, hlifecycle⟩

end Constructors

/-! ## The system -/

namespace KernelMachine

/-- What can happen in production.  A constructor gets an id that is not registered, and
the reaper is run by a task. -/
def Produces (platform : Platform) (m : KernelMachine) (op : KernelOp) : Prop :=
  m.Enabled platform op ∧
    match op with
    | .memory v => ∀ va ∈ platform.layout.window,
        v.paging.tables.lookup platform.root va = m.kernel.vmm.paging.tables.lookup platform.root va
    | .createKernelTask _ _ _ tid _ _ _ => ∀ u, m.kernel.taskRegistry.Mem u →
      (m.kernel.task u).id ≠ tid
    | .createTask _ _ tid _ _ _ => ∀ u, m.kernel.taskRegistry.Mem u → (m.kernel.task u).id ≠ tid
    | .reap => m.kernel.sched.current.isSome = true
    | .start | .yield _ | .timer _ | .preemption _ | .interrupts _ | .initQueue _ | .block _ _ _
    | .wake _ | .exit _ => True
    | .processCreate _ _ _ | .processAttachTask _ _ | .processDetachTask _ _
    | .processTransition _ _
    | .processTerminate _ | .processDestroy _ | .destroyTask _ _ | .destroyKernelTask _ _ => False

end KernelMachine

/-- The kernel in production as a transition system. -/
def productionSystem (platform : Platform) : TransitionSystem KernelMachine KernelOp where
  enabled := KernelMachine.Produces platform
  step := KernelMachine.step platform.layout

/-- Stacks are in order, what waits for the reaper is registered, and the books agree. -/
structure KernelMachine.Tidy (platform : Platform) (m : KernelMachine) : Prop where
  inv : m.Inv platform
  stacked : m.kernel.Stacked platform
  pending : ∀ t ∈ m.kernel.lifecycle.items, m.kernel.taskRegistry.Mem t
  ledger : m.ended = m.reaped ++ m.kernel.lifecycle.items

/-- Tasks in the queue of the reaper leave room for one that is registered and not in it. -/
theorem Kernel.Inv.room (h : k.Inv platform owner)
    (hpending : ∀ u ∈ k.lifecycle.items, k.taskRegistry.Mem u) (ht : k.taskRegistry.Mem t)
    (hnot : t ∉ k.lifecycle.items) :
    k.lifecycle.items.length < taskMaxTasks := by
  have hall : ∀ u ∈ t :: k.lifecycle.items, k.taskRegistry.Mem u := by
    rw [forall_mem_cons]
    exact ⟨ht, hpending⟩
  have hnodup : ((t :: k.lifecycle.items).map fun u => (k.task u).id.toNat).Nodup := by
    rw [nodup_map_iff_inj_on (nodup_cons.mpr ⟨hnot, h.pending.nodup⟩)]
    exact fun u hu u' hu' hid => h.keyed.eq_of_key (hall u hu) (hall u' hu') hid
  have hsubset : ((t :: k.lifecycle.items).map fun u => (k.task u).id.toNat).toFinset ⊆
      Finset.Icc 1 taskMaxTasks := by
    intro id hid
    obtain ⟨u, hu, rfl⟩ := mem_map.mp (mem_toFinset.mp hid)
    obtain ⟨hne, hmax⟩ := h.id_valid (hall u hu)
    exact Finset.mem_Icc.mpr (stackSlot platform.layout.toTaskLayout hne hmax).1
  have hcard := Finset.card_le_card hsubset
  rw [toFinset_card_of_nodup hnodup, Nat.card_Icc, length_map, length_cons] at hcard
  omega

namespace KernelMachine

variable {platform : Platform} {m : KernelMachine}

theorem tidy_boot (platform : Platform) : (boot platform).Tidy platform where
  inv := inv_boot platform
  stacked := by
    refine ⟨fun t ht => ?_, fun tid _ _ _ page entry hleaf => ?_⟩
    · obtain ⟨_, hslot⟩ := ht
      cases hslot
    change platform.boot.start.vmm.paging.tables.lookup platform.root _ = _ at hleaf
    rw [Platform.root, platform.boot.lookup_start] at hleaf
    cases hleaf
  pending := nofun
  ledger := rfl

/-- Who owns a CPU that is not halted. -/
theorem Inv.current (h : m.Inv platform) (hrun : m.halted = false) :
    m.kernel.Inv platform m.kernel.sched.current := by
  have howner : m.owner = m.kernel.sched.current := by
    rw [owner, hrun]
    rfl
  rw [← howner]
  exact h

/-- The scheduler passes the CPU on. -/
theorem Tidy.reschedule (h : m.Tidy platform) {m' : KernelMachine} (hinv : m'.Inv platform)
    (hrescheduled : m.kernel.Rescheduled m'.kernel)
    (hlifecycle : m'.kernel.lifecycle = m.kernel.lifecycle)
    (hended : m'.ended = m.ended) (hreaped : m'.reaped = m.reaped) : m'.Tidy platform := by
  refine ⟨hinv, h.stacked.rescheduled h.inv hrescheduled, ?_, ?_⟩
  · rw [hlifecycle, hrescheduled.registry]
    exact h.pending
  · rw [hended, hreaped, hlifecycle]
    exact h.ledger

/-- A constructor. -/
theorem Tidy.construct (h : m.Tidy platform) (hinv : (m.setKernel k).Inv platform)
    (hconstructs : m.kernel.Constructs platform k) : (m.setKernel k).Tidy platform := by
  refine ⟨hinv, hconstructs.stacked, ?_, ?_⟩
  · intro t ht
    change t ∈ k.lifecycle.items at ht
    rw [hconstructs.lifecycle] at ht
    exact hconstructs.registry t (h.pending t ht)
  · show m.ended = m.reaped ++ k.lifecycle.items
    rw [hconstructs.lifecycle]
    exact h.ledger

/-- A step of the scheduler. -/
theorem Tidy.sched (h : m.Tidy platform) {s : Sched} (hinv : (m.setSched s).Inv platform)
    (hgoes : m.kernel.sched.Goes s) : (m.setSched s).Tidy platform :=
  h.reschedule hinv ⟨rfl, rfl, hgoes.moves.identity⟩ rfl rfl rfl

/-- A step of the scheduler that may halt the CPU. -/
theorem Tidy.finish (h : m.Tidy platform) {ending : Control × Sched}
    (hinv : (m.finish ending).Inv platform) (hgoes : m.kernel.sched.Goes ending.2) :
    (m.finish ending).Tidy platform :=
  h.reschedule hinv ⟨rfl, rfl, hgoes.moves.identity⟩ rfl rfl rfl

/-- The running task is not in the queue of the reaper, which therefore has room for it. -/
theorem Tidy.room (h : m.Tidy platform) (hrun : m.halted = false)
    (hcurrent : m.kernel.sched.current = some c) :
    m.kernel.lifecycle.items.length < taskMaxTasks := by
  have hinv := h.inv.current hrun
  exact hinv.room h.pending (hinv.active c (.inl hcurrent)) (hinv.current_not_pending hcurrent)

/-- What the end of the running task leaves. -/
theorem Tidy.leave (h : m.Tidy platform) (hrun : m.halted = false)
    (hcurrent : m.kernel.sched.current = some c) (registers : Context) :
    ∃ control k' owner, m.kernel.taskBootstrapExit c registers = (control, k') ∧
      m.kernel.Rescheduled k' ∧ k'.Inv platform owner ∧
      k'.lifecycle.items = m.kernel.lifecycle.items ++ [c] := by
  have hinv := h.inv.current hrun
  have hroom := h.room hrun hcurrent
  rcases taskBootstrapExit_cases hinv hcurrent registers with
    ⟨k', heq, hrescheduled, hinv', -, ⟨hfull, -⟩ | ⟨-, -, hitems⟩⟩ |
    ⟨n, k', continuation, heq, hrescheduled, hsound, -, -, hitems⟩
  · omega
  · exact ⟨_, k', _, heq, hrescheduled, hinv', hitems⟩
  · exact ⟨_, k', _, heq, hrescheduled, hsound.inv, hitems⟩

/-- The running task ends. -/
theorem Tidy.exit (h : m.Tidy platform) (hrun : m.halted = false)
    (hcurrent : m.kernel.sched.current = some c) (registers : Context)
    (hnext : (m.step platform.layout (.exit registers)).Inv platform) :
    (m.step platform.layout (.exit registers)).Tidy platform ∧
      (m.step platform.layout (.exit registers)).ended = m.ended ++ [c] := by
  have hinv := h.inv.current hrun
  have hmem := hinv.active c (.inl hcurrent)
  obtain ⟨control, k', owner, heq, hrescheduled, hinv', hitems⟩ := h.leave hrun hcurrent registers
  have hpending : c ∈ k'.lifecycle.items := by
    rw [hitems]
    exact mem_append_right _ mem_cons_self
  have hstep : m.step platform.layout (.exit registers) =
      { m.setKernel k' with halted := decide (control = .halts), ended := m.ended ++ [c] } := by
    rw [KernelMachine.step, hcurrent]
    dsimp only
    rw [heq]
    dsimp only
    rw [if_pos ⟨(hinv'.ended c hpending).1, hinv'.managed c (.inr hpending)⟩]
  rw [hstep] at hnext ⊢
  refine ⟨⟨hnext, h.stacked.rescheduled hinv hrescheduled, ?_, ?_⟩, rfl⟩
  · show ∀ t ∈ k'.lifecycle.items, k'.taskRegistry.Mem t
    rw [hitems, hrescheduled.registry, forall_mem_append]
    refine ⟨h.pending, fun u hu => ?_⟩
    rw [mem_singleton.mp hu]
    exact hmem
  · show m.ended ++ [c] = m.reaped ++ k'.lifecycle.items
    rw [hitems, h.ledger, append_assoc]

/-- **The reaper** finds nothing to do, or takes the task that ended first. -/
theorem Tidy.reap (h : m.Tidy platform) (hrun : m.halted = false) :
    (m.kernel.lifecycle.items = [] ∧ lifecycleReapOne m.kernel = (1, m.kernel)) ∨
      ∃ t rest k', m.kernel.lifecycle.items = t :: rest ∧ lifecycleReapOne m.kernel = (0, k') ∧
        k'.lifecycle.items = rest ∧ Kernel.Reclaimed platform m.kernel k' t ∧
        k'.Stacked platform := by
  have hinv := h.inv.current hrun
  rcases lifecycleReapOne_cases hinv with hempty | ⟨t, rest, hitems, -⟩
  · exact .inl hempty
  right
  have hmem : m.kernel.taskRegistry.Mem t := h.pending t (by rw [hitems]; exact mem_cons_self)
  obtain ⟨k', heq, hreclaimed, hrest, hlookup⟩ :=
    lifecycleReapOne_of_mapped hinv hitems hmem (h.stacked.mapped t hmem)
  exact ⟨t, rest, k', hitems, heq, hrest, hreclaimed,
    h.stacked.retire hinv hmem hreclaimed.registry hreclaimed.tasks hlookup⟩

/-- What the reaper leaves. -/
theorem Tidy.reaped (h : m.Tidy platform) (hrun : m.halted = false)
    (hnext : (m.step platform.layout .reap).Inv platform) :
    (m.step platform.layout .reap).Tidy platform := by
  have hinv := h.inv.current hrun
  rcases h.reap hrun with ⟨hempty, heq⟩ | ⟨t, rest, k', hitems, heq, hrest, hreclaimed, hstacked⟩
  · have hstep : m.step platform.layout .reap = m := by
      rw [KernelMachine.step, heq]
      dsimp only
      rw [if_neg (by decide), append_nil]
      rfl
    rw [hstep]
    exact h
  · have hstep : m.step platform.layout .reap =
        { m.setKernel k' with reaped := m.reaped ++ [t] } := by
      rw [KernelMachine.step, heq]
      dsimp only
      rw [if_pos rfl, hinv.pending.peek_eq, hitems]
      rfl
    rw [hstep] at hnext ⊢
    have hnodup := hinv.pending.nodup
    rw [hitems, nodup_cons] at hnodup
    refine ⟨hnext, hstacked, ?_, ?_⟩
    · show ∀ u ∈ k'.lifecycle.items, k'.taskRegistry.Mem u
      intro u hu
      rw [hrest] at hu
      refine (hreclaimed.registry u).mpr
        ⟨h.pending u (by rw [hitems]; exact mem_cons_of_mem t hu), ?_⟩
      rintro rfl
      exact hnodup.1 hu
    · show m.ended = (m.reaped ++ [t]) ++ k'.lifecycle.items
      rw [hrest, h.ledger, hitems, append_assoc]
      rfl

/-- **Every operation of production keeps the kernel tidy.** -/
theorem Tidy.step (h : m.Tidy platform) {op : KernelOp} (hop : m.Produces platform op) :
    (m.step platform.layout op).Tidy platform := by
  obtain ⟨henabled, hguard⟩ := hop
  have hnext := h.inv.step henabled
  obtain ⟨hrun, hready⟩ := henabled
  have hinv := h.inv.current hrun
  cases op with
  | memory v =>
      exact ⟨hnext, h.stacked.congr hinv (fun _ => Iff.rfl) (fun _ _ => rfl) hguard,
        h.pending, h.ledger⟩
  | createKernelTask p t pid tid addressSpace entry argument =>
      exact h.construct hnext
        (executionCreateKernelTask_constructs argument h.stacked hinv hready hguard p pid
        addressSpace entry)
  | createTask p t tid addressSpace entry argument =>
      exact h.construct hnext
        (executionCreateTask_constructs argument h.stacked hinv hready hguard p addressSpace entry)
  | reap => exact h.reaped hrun hnext
  | start => exact h.sched hnext hinv.sched.goes_start
  | yield registers => exact h.finish hnext (hinv.sched.goes_yield registers).1
  | timer frame => exact h.sched hnext (hinv.sched.goes_timer frame)
  | preemption | interrupts =>
      exact h.sched hnext ⟨.of_tasks_eq rfl fun _ hu => hu, _, _, hinv.sched.of_eq rfl rfl rfl⟩
  | initQueue q => exact h.sched hnext (hinv.sched.goes_initQueue hready)
  | block t q registers => exact h.finish hnext (hinv.sched.goes_block t q registers).1
  | wake t => exact h.sched hnext (hinv.sched.goes_wake t)
  | exit registers =>
      obtain ⟨c, hcurrent⟩ := Option.isSome_iff_exists.mp hready
      exact (h.exit hrun hcurrent registers hnext).1
  | processCreate | processAttachTask | processDetachTask | processTransition | processTerminate
  | processDestroy | destroyTask | destroyKernelTask => exact hguard.elim

/-! ## The promises of the reaper -/

/-- What the end of a task and the reaper do in a state. -/
structure Reaping (platform : Platform) (m : KernelMachine) : Prop where
  /-- The exit sequence of the running task publishes it. -/
  publishes : ∀ c, m.kernel.sched.current = some c → ∃ s,
    taskExit m.kernel.sched.irqSave c = some s ∧
    (lifecyclePublishTerminatedTask { m.kernel with sched := s } c).1 = 0
  /-- It is recorded as the last that has ended. -/
  ends : ∀ c, m.kernel.sched.current = some c → ∀ registers,
    (m.step platform.layout (.exit registers)).ended = m.ended ++ [c]
  /-- The reaper succeeds, on the task that ended first of those it has not yet taken, and
  nothing is left of that task. -/
  reaps : (lifecycleReapOne m.kernel).1 = 1 ∧ m.ended = m.reaped ∨
    (lifecycleReapOne m.kernel).1 = 0 ∧ ∃ t rest, m.ended = m.reaped ++ t :: rest ∧
      (m.step platform.layout .reap).reaped = m.reaped ++ [t] ∧
      m.kernel.sched.current ≠ some t ∧
      Kernel.Reclaimed platform m.kernel (lifecycleReapOne m.kernel).2 t

theorem Tidy.reaping (h : m.Tidy platform) (hrun : m.halted = false) : m.Reaping platform := by
  have hinv := h.inv.current hrun
  refine ⟨fun c hcurrent => ?_, fun c hcurrent registers => ?_, ?_⟩
  · refine ⟨_, (taskExit_current hinv hcurrent).1, ?_⟩
    have hroom := h.room hrun hcurrent
    have hpublish := publish_exited hinv hcurrent
    rw [if_neg (by omega)] at hpublish
    exact congrArg Prod.fst hpublish
  · have henabled : m.Enabled platform (.exit registers) := ⟨hrun, by rw [hcurrent]; rfl⟩
    exact (h.exit hrun hcurrent registers (h.inv.step henabled)).2
  · rcases h.reap hrun with ⟨hempty, heq⟩ | ⟨t, rest, k', hitems, heq, -, hreclaimed, -⟩
    · left
      rw [heq, h.ledger, hempty, append_nil]
      exact ⟨rfl, rfl⟩
    · right
      refine ⟨by rw [heq], t, rest, by rw [h.ledger, hitems], ?_, ?_, by rw [heq]; exact hreclaimed⟩
      · rw [KernelMachine.step, heq]
        dsimp only
        rw [if_pos rfl, hinv.pending.peek_eq, hitems]
        rfl
      · intro hcurrent
        refine hinv.current_not_pending hcurrent ?_
        rw [hitems]
        exact mem_cons_self

end KernelMachine

theorem tidy_of_reachable {m : KernelMachine}
    (h : (productionSystem platform).Reachable (KernelMachine.boot platform) m) : m.Tidy platform :=
  h.induction (KernelMachine.Tidy platform) (fun _ _ htidy hop => htidy.step hop)
    (KernelMachine.tidy_boot platform)

/-- **The reaper in production never fails.**  In every run the exit sequences publish what
they end, the reaper returns 0 or 1, and it takes the tasks in the order in which they
ended, each end once and none while the task has the CPU. -/
theorem reaper_never_fails (platform : Platform) {m : KernelMachine}
    (h : (productionSystem platform).Reachable (KernelMachine.boot platform) m) :
    m.ended = m.reaped ++ m.kernel.lifecycle.items ∧ m.kernel.lifecycle.items.Nodup ∧
      (m.halted = false → m.Reaping platform) := by
  have htidy := tidy_of_reachable h
  refine ⟨htidy.ledger, ?_, htidy.reaping⟩
  have hinv : m.kernel.Inv platform m.owner := htidy.inv
  exact hinv.pending.nodup

/-- An id without a registered task. -/
theorem Kernel.Inv.id_ne_of_find (h : k.Inv platform owner) {tid : Word}
    (hfree : k.taskRegistry.find tid.toNat = none) (u : TaskRef) (hu : k.taskRegistry.Mem u) :
    (k.task u).id ≠ tid := by
  rintro rfl
  rw [h.keyed.find_iff.mpr hu] at hfree
  cases hfree

/-- A task object that has not been used. -/
theorem Kernel.Inv.idle_of_new (h : k.Inv platform owner) (hnew : (k.task t).state = .new)
    (hprocess : (k.task t).process = none) (hcontains : taskRegistryContains k t ≠ true) :
    k.Idle t := by
  refine ⟨hprocess, mt (h.contains_iff t).mpr hcontains, h.sched.not_mem_ready ?_, fun q hwaiting =>
    ?_, fun hpending => ?_⟩
  · rw [hnew]
    exact nofun
  · have hnone := h.sched.waitQueue_eq_none (t := t) (by rw [hnew]; exact nofun)
    cases hnone.symm.trans ((h.sched.waiting_iff q t).mp hwaiting)
  · cases hnew.symm.trans (h.ended t hpending).1

/-- A first kernel task has been created. -/
def demoFirst : KernelMachine :=
  (productionSystem demoPlatform).step (KernelMachine.boot demoPlatform)
    (.createKernelTask 5 7 1 1 0x2000 0x400 0)

/-- A second one is created, and the first one runs and ends. -/
def demoProduction : KernelMachine :=
  (productionSystem demoPlatform).run demoFirst [.createTask 5 8 2 0x2000 0x400 0, .start, .exit {}]

theorem demoProduction_reachable :
    (productionSystem demoPlatform).Reachable (KernelMachine.boot demoPlatform) demoProduction := by
  have hcreate : (KernelMachine.boot demoPlatform).Produces demoPlatform
      (.createKernelTask 5 7 1 1 0x2000 0x400 0) := by
    refine ⟨⟨rfl, idle_boot demoPlatform 7⟩, fun u hu => ?_⟩
    obtain ⟨_, hslot⟩ := hu
    cases hslot
  have hinv : demoFirst.kernel.Inv demoPlatform demoFirst.owner :=
    ((KernelMachine.tidy_boot demoPlatform).step hcreate).inv
  have hidle : demoFirst.kernel.Idle 8 := by
    apply hinv.idle_of_new <;> decide +kernel
  have hfree : demoFirst.kernel.taskRegistry.find (2 : Word).toNat = none := by decide +kernel
  have hsecond : demoFirst.Produces demoPlatform (.createTask 5 8 2 0x2000 0x400 0) :=
    ⟨⟨by decide +kernel, hidle⟩, hinv.id_ne_of_find hfree⟩
  have hfirst : (productionSystem demoPlatform).Reachable (KernelMachine.boot demoPlatform)
    demoFirst :=
    (TransitionSystem.Reachable.refl _ _).tail _ hcreate
  refine hfirst.trans ⟨_, ?_, rfl⟩
  refine ⟨hsecond, ⟨⟨?_, trivial⟩, trivial⟩, ⟨⟨?_, ?_⟩, trivial⟩, trivial⟩
  all_goals decide +kernel

/-- The second task reaps the first one. -/
theorem reaper_never_fails_demo :
    demoProduction.kernel.sched.current = some 8 ∧ Kernel.Reclaimed demoPlatform
      demoProduction.kernel (lifecycleReapOne demoProduction.kernel).2 7 := by
  have hrun : demoProduction.halted = false := by decide +kernel
  have hcode : (lifecycleReapOne demoProduction.kernel).1 = 0 := by decide +kernel
  have hended : demoProduction.ended = demoProduction.reaped ++ [7] := by decide +kernel
  rcases ((reaper_never_fails demoPlatform demoProduction_reachable).2.2 hrun).reaps with
    ⟨hnone, -⟩ | ⟨-, t, rest, hfirst, -, -, hreclaimed⟩
  · cases hcode.symm.trans hnone
  · rw [hended, append_cancel_left_eq] at hfirst
    cases hfirst
    exact ⟨by decide +kernel, hreclaimed⟩

end Batos
