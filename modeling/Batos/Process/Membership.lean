import Batos.Process.Model

/-!
# Membership of tasks in processes

A task belongs to a process in two places: the process lists the task, and the task
points back to the process.  `Kernel.Membership` says that the two agree, together with
what the registry of processes is for: every registered process is in the slot of its
id, and no two of them share an address space.

The invariant is stated for all process objects, registered or not.  An object that is
not registered lists nothing, because no task points to it.  Each operation of
`process.c` then has one specification: it fails and changes nothing that matters, or
it does one of four things to the relation — attach a task, detach one, register an
object with no members, remove one from the registry.
-/

namespace Batos

open Function List

variable {items : List TaskRef} {task : Task} {index : Fin processMaxProcesses}

@[simp] theorem Call.andThen_zero (k : Kernel) (recover next : Kernel → Call) :
    Call.andThen (0, k) recover next = next k := rfl

theorem Call.andThen_of_ne {code : ℤ} (h : code ≠ 0) (k : Kernel) (recover next : Kernel → Call) :
    Call.andThen (code, k) recover next = recover k := if_pos h

/-- The rule of consecution: `P` is what the first call leaves, `Q` what both ways on lead
to. -/
theorem Call.andThen_rule (P : Kernel → Prop) (Q : Call → Prop) {call : Call}
    {recover next : Kernel → Call} (hcall : P call.2) (hrecover : ∀ k, P k → Q (recover k))
    (hnext : ∀ k, P k → Q (next k)) : Q (call.andThen recover next) := by
  unfold Call.andThen
  split_ifs
  · exact hrecover _ hcall
  · exact hnext _ hcall

/-- The registry of processes is in use, and every registered process is in the slot of
its id. -/
structure Kernel.Enrolled (k : Kernel) : Prop where
  initialized : k.processRegistry.initialized = true
  keyed : k.processRegistry.Keyed fun p => (k.processes p).id.toNat

namespace Kernel.Enrolled

variable {k : Kernel} {p : ProcessRef}

/-- The search by id finds what is registered. -/
theorem contains_iff (h : k.Enrolled) (p : ProcessRef) :
    processRegistryContains k p = true ↔ k.processRegistry.Mem p := by
  rw [processRegistryContains, h.initialized, Bool.true_and, decide_eq_true_eq]
  exact h.keyed.find_iff (x := p)

theorem contains_eq_false (h : k.Enrolled) (p : ProcessRef) :
    processRegistryContains k p = false ↔ ¬ k.processRegistry.Mem p := by
  rw [← h.contains_iff, Bool.not_eq_true]

/-- An object that is not registered may become anything. -/
theorem setProcess (h : k.Enrolled) (hp : ¬ k.processRegistry.Mem p) (process : Process) :
    (k.setProcess p process).Enrolled := by
  refine ⟨h.initialized, h.keyed.congr fun q hq => ?_⟩
  have hne : q ≠ p := by
    rintro rfl
    exact hp hq
  rw [show (k.setProcess p process).processes q = k.processes q from update_of_ne hne _ _]

/-- No registered process has the address space. -/
theorem findByAddressSpace_eq_none (h : k.Enrolled) {addressSpace : Word}
    (hzero : addressSpace ≠ 0) :
    processRegistryFindByAddressSpace k addressSpace = none ↔
      ∀ q, k.processRegistry.Mem q → (k.processes q).addressSpace ≠ addressSpace := by
  unfold processRegistryFindByAddressSpace
  rw [if_neg (not_or.mpr ⟨by simp [h.initialized], hzero⟩), List.findSome?_eq_none_iff]
  simp only [Option.filter_eq_none_iff, decide_eq_true_eq]
  constructor
  · rintro hnone q ⟨index, hslot⟩
    exact hnone index (mem_finRange index) q hslot
  · intro hall index _ q hslot
    exact hall q ⟨index, hslot⟩

/-- `process_registry_register` of an object that is in no slot. -/
theorem register (h : k.Enrolled) (hp : ¬ k.processRegistry.Mem p)
    (hstate : (k.processes p).state ≠ .terminated) :
    (∃ code, code ≠ 0 ∧ processRegistryRegister k p = (code, k)) ∨
      ∃ index, k.processRegistry.slots index = none ∧
        (k.processes p).id.toNat = index.val + 1 ∧ processRegistryRegister k p =
          (0, { k with processRegistry := k.processRegistry.insert index p }) := by
  have habsent : (List.finRange processMaxProcesses).any
      (fun index => decide (k.processRegistry.slots index = some p)) = false := by
    rw [any_eq_false]
    intro index _ hslot
    exact hp ⟨index, by simpa using hslot⟩
  unfold processRegistryRegister
  rw [if_neg (by simp [h.initialized]), habsent, if_neg (by simp)]
  cases hslot : IdTable.slotOf processMaxProcesses (k.processes p).id.toNat with
  | none => exact .inl ⟨-3, by decide, rfl⟩
  | some index =>
      dsimp only
      rw [if_neg hstate]
      cases hfree : k.processRegistry.slots index with
      | some q => exact .inl ⟨-5, by decide, rfl⟩
      | none => exact .inr ⟨index, hfree, IdTable.slotOf_eq_some.mp hslot, rfl⟩

/-- **`process_create`** fails, at most clearing an object that is not registered, or
registers the object with an address space that is in use and nobody's. -/
theorem create (h : k.Enrolled) (p : ProcessRef) (pid addressSpace : Word) :
    (∃ code k', code ≠ 0 ∧ processCreate k p pid addressSpace = (code, k') ∧
        (k' = k ∨ ¬ k.processRegistry.Mem p ∧ k' = k.setProcess p {})) ∨
      ∃ index, ¬ k.processRegistry.Mem p ∧ k.processRegistry.slots index = none ∧
        pid.toNat = index.val + 1 ∧ findAddressSpaceRecord k.vmm addressSpace ≠ none ∧
        (∀ q, k.processRegistry.Mem q → (k.processes q).addressSpace ≠ addressSpace) ∧
        processCreate k p pid addressSpace =
          (0, { k.setProcess p { id := pid, state := .active, addressSpace := addressSpace } with
            processRegistry := k.processRegistry.insert index p }) := by
  unfold processCreate
  by_cases hmem : processRegistryContains k p = true
  · rw [if_pos hmem]
    exact .inl ⟨-9, k, by decide, rfl, .inl rfl⟩
  rw [if_neg hmem]
  rw [h.contains_iff] at hmem
  by_cases hpid : pid = 0 ∨ processMaxProcesses < pid.toNat
  · rw [if_pos hpid]
    exact .inl ⟨-2, k, by decide, rfl, .inl rfl⟩
  rw [if_neg hpid]
  by_cases hzero : addressSpace = 0
  · rw [if_pos hzero]
    exact .inl ⟨-3, k, by decide, rfl, .inl rfl⟩
  rw [if_neg hzero]
  cases hspace : vmmGetAddressSpaceState k.vmm addressSpace with
  | none => exact .inl ⟨-4, k, by decide, rfl, .inl rfl⟩
  | some state =>
      dsimp only
      by_cases hstate : state ≠ .created ∧ state ≠ .active
      · rw [if_pos hstate]
        exact .inl ⟨-5, k, by decide, rfl, .inl rfl⟩
      rw [if_neg hstate]
      by_cases htaken : (processRegistryFindByAddressSpace k addressSpace).isSome = true
      · rw [if_pos htaken]
        exact .inl ⟨-6, k, by decide, rfl, .inl rfl⟩
      rw [if_neg htaken]
      rw [Option.not_isSome_iff_eq_none, h.findByAddressSpace_eq_none hzero] at htaken
      have hlive : findAddressSpaceRecord k.vmm addressSpace ≠ none := by
        intro hnone
        rw [vmmGetAddressSpaceState, hnone] at hspace
        cases hspace
      set process : Process := { id := pid, state := .new, addressSpace := addressSpace }
      have hself : (k.setProcess p process).processes p = process := update_self _ _ _
      have hclear : (k.setProcess p process).anonymize p = k.setProcess p {} := by
        rw [Kernel.anonymize, hself]
        simp only [Kernel.setProcess, update_idem]
        rfl
      have hnamed := h.setProcess hmem process
      rcases hnamed.register hmem (by simp [hself, process]) with
        ⟨code, hcode, heq⟩ | ⟨index, hfree, hid, heq⟩
      · rw [heq, Call.andThen_of_ne hcode, hclear]
        exact .inl ⟨-7, _, by decide, rfl, .inr ⟨hmem, rfl⟩⟩
      rw [heq, Call.andThen_zero]
      set k₁ : Kernel := { k.setProcess p process with
        processRegistry := (k.setProcess p process).processRegistry.insert index p } with hk₁
      have hself₁ : k₁.processes p = process := hself
      have henrolled : k₁.Enrolled := ⟨h.initialized, hnamed.keyed.insert hid⟩
      have hregistered : processRegistryContains k₁ p = true :=
        (henrolled.contains_iff p).mpr ((IdTable.mem_insert_of_free hfree).mpr (.inl rfl))
      have htransition : processTransition k₁ p .active =
          (0, k₁.setProcess p { k₁.processes p with state := .active }) := by
        unfold processTransition
        rw [if_neg (by simp [hself₁, process, ProcessState.allows]), if_neg (by simp [hregistered])]
      rw [htransition, Call.andThen_zero]
      refine .inr ⟨index, hmem, hfree, by rwa [hself] at hid, hlive, htaken, ?_⟩
      rw [hself₁, hk₁]
      simp only [Kernel.setProcess, update_idem]
      rfl

/-- **`process_destroy`** fails, or removes a process that has ended and lists nobody. -/
theorem destroy (h : k.Enrolled) (hcounted : k.processRegistry.Counted) (p : ProcessRef) :
    (∃ code, code ≠ 0 ∧ processDestroy k p = (code, k) ∧
        ¬ (k.processRegistry.Mem p ∧ (k.processes p).state = .terminated ∧
          (k.processes p).tasks.count = 0)) ∨
      ∃ index, k.processRegistry.slots index = some p ∧ (k.processes p).tasks.count = 0 ∧
        processDestroy k p =
          (0, { k with processRegistry := k.processRegistry.erase index }.setProcess p {}) := by
  unfold processDestroy
  split_ifs with hmem hstate hempty
  · exact .inl ⟨-2, by decide, rfl, fun hok => (h.contains_eq_false p).mp hmem hok.1⟩
  · exact .inl ⟨-3, by decide, rfl, fun hok => hstate hok.2.1⟩
  · exact .inl ⟨-4, by decide, rfl, fun hok => hempty hok.2.2⟩
  · rw [h.contains_eq_false, not_not] at hmem
    obtain ⟨index, hslot⟩ := hmem
    have hunregister : processRegistryUnregister k p =
        (0, { k with processRegistry := k.processRegistry.erase index }) := by
      unfold processRegistryUnregister
      rw [if_neg (by rw [h.initialized]; decide),
        IdTable.slotOf_eq_some.mpr (h.keyed index p hslot)]
      dsimp only
      rw [if_neg (not_not.mpr hslot), if_neg (hcounted.ne_zero hslot)]
    rw [hunregister, Call.andThen_zero]
    exact .inr ⟨index, hslot, not_not.mp hempty, rfl⟩

/-- **`process_detach_task`** succeeds on a task that names the process, if that is registered
and lists all tasks that name it. -/
theorem detach (h : k.Enrolled) (hrep : (k.processes p).tasks.Represents items)
    (hnodup : items.Nodup) (hitems : ∀ t, (k.task t).process = some p → t ∈ items) (t : TaskRef)
    (hregistered : (k.task t).process = some p → k.processRegistry.Mem p) :
    (∃ code, code ≠ 0 ∧ processDetachTask k p t = (code, k) ∧ (k.task t).process ≠ some p) ∨
      ∃ index rest, (k.processes p).tasks.indexOf t = some index ∧ processDetachTask k p t =
          (0, (k.setProcess p { k.processes p with
            tasks := (k.processes p).tasks.removeAt index }).setTask t
              { k.task t with process := none }) ∧
        (k.task t).process = some p ∧ ((k.processes p).tasks.removeAt index).Represents rest ∧
        items.Perm (t :: rest) ∧ (t :: rest).Nodup := by
  unfold processDetachTask
  by_cases hmember : (k.task t).process = some p
  · right
    have ht : t ∈ items := hitems t hmember
    obtain ⟨index, hindex, hslot⟩ := hrep.indexOf_of_mem ht
    have hcount : (k.processes p).tasks.count ≠ 0 := by
      rw [hrep.count]
      exact (length_pos_of_mem ht).ne'
    obtain ⟨rest, hrest, hperm⟩ := hrep.removeAt hslot
    rw [if_neg (by rw [h.contains_eq_false]; exact not_not.mpr (hregistered hmember)), hindex]
    dsimp only
    rw [if_neg (not_not.mpr hmember), if_neg hcount]
    exact ⟨index, rest, rfl, rfl, hmember, hrest, hperm, hperm.nodup_iff.mp hnodup⟩
  · left
    split_ifs
    · exact ⟨-2, by decide, rfl, hmember⟩
    cases (k.processes p).tasks.indexOf t with
    | none => exact ⟨-3, by decide, rfl, hmember⟩
    | some index => exact ⟨-4, by decide, rfl, hmember⟩

end Kernel.Enrolled

/-- The two directions of membership agree, and the registry of processes is sound. -/
structure Kernel.Membership (k : Kernel) : Prop where
  initialized : k.processRegistry.initialized = true
  keyed : k.processRegistry.Keyed fun p => (k.processes p).id.toNat
  counted : k.processRegistry.Counted
  lists : ∀ p, ∃ items, (k.processes p).tasks.Represents items ∧ items.Nodup ∧
    items.length ≤ processMaxTasks ∧ ∀ t, t ∈ items ↔ (k.task t).process = some p
  registered : ∀ t p, (k.task t).process = some p → k.processRegistry.Mem p ∧
    (k.task t).addressSpace = (k.processes p).addressSpace
  spaces : ∀ p p', k.processRegistry.Mem p → k.processRegistry.Mem p' →
    (k.processes p).addressSpace = (k.processes p').addressSpace → p = p'

namespace Kernel.Membership

variable {k k' : Kernel} {p : ProcessRef} {t : TaskRef}

theorem enrolled (h : k.Membership) : k.Enrolled := ⟨h.initialized, h.keyed⟩

theorem contains_iff (h : k.Membership) (p : ProcessRef) :
    processRegistryContains k p = true ↔ k.processRegistry.Mem p := h.enrolled.contains_iff p

theorem contains_eq_false (h : k.Membership) (p : ProcessRef) :
    processRegistryContains k p = false ↔ ¬ k.processRegistry.Mem p :=
      h.enrolled.contains_eq_false p

/-- Nothing belongs to an object that is not registered. -/
theorem tasks_of_not_mem (h : k.Membership) (hp : ¬ k.processRegistry.Mem p) :
    (k.processes p).tasks = .empty := by
  obtain ⟨items, hrep, -, -, hitems⟩ := h.lists p
  have hnil : items = [] := by
    refine eq_nil_iff_forall_not_mem.mpr fun t ht => ?_
    exact hp (h.registered t p ((hitems t).mp ht)).1
  subst hnil
  exact hrep.eq_empty

/-- The relation is untouched. -/
theorem frame (h : k.Membership) (hprocesses : k'.processes = k.processes)
    (hregistry : k'.processRegistry = k.processRegistry)
    (hprocess : ∀ t, (k'.task t).process = (k.task t).process)
    (hspace : ∀ t, (k.task t).process ≠ none → (k'.task t).addressSpace = (k.task t).addressSpace) :
    k'.Membership := by
  refine ⟨?_, ?_, ?_, ?_, ?_, ?_⟩
  · rw [hregistry]
    exact h.initialized
  · rw [hregistry, hprocesses]
    exact h.keyed
  · rw [hregistry]
    exact h.counted
  · simp only [hprocesses, hprocess]
    exact h.lists
  · intro t p ht
    rw [hprocess] at ht
    rw [hregistry, hprocesses, hspace t (by rw [ht]; exact nofun)]
    exact h.registered t p ht
  · rw [hregistry, hprocesses]
    exact h.spaces

/-- A task that belongs to nobody is overwritten by another that does not. -/
theorem setTask (h : k.Membership) (hold : (k.task t).process = none) (hnew : task.process = none) :
    (k.setTask t task).Membership := by
  refine h.frame rfl rfl (fun u => ?_) fun u hu => ?_
  · by_cases heq : u = t
    · subst heq
      exact (congrArg Task.process (update_self _ _ _)).trans (hnew.trans hold.symm)
    · exact congrArg Task.process (update_of_ne heq _ _)
  · have hne : u ≠ t := by
      rintro rfl
      exact hu hold
    exact congrArg Task.addressSpace (update_of_ne hne _ _)

/-- One task joins or leaves one process. -/
theorem relist (h : k.Membership) {tasks : DenseArray TaskRef} (hrep : tasks.Represents items)
    (hnodup : items.Nodup) (hroom : items.length ≤ processMaxTasks)
    (hothers : ∀ u, u ≠ t → (u ∈ items ↔ (k.task u).process = some p))
    (hself : t ∈ items ↔ task.process = some p) (hold : ∀ p', p' ≠ p → (k.task t).process ≠ some p')
    (hnew : ∀ p', task.process = some p' → p' = p ∧ k.processRegistry.Mem p ∧ task.addressSpace =
      (k.processes p).addressSpace) :
    ((k.setProcess p { k.processes p with tasks := tasks }).setTask t task).Membership := by
  set k₁ := (k.setProcess p { k.processes p with tasks := tasks }).setTask t task with hk₁
  have hid : ∀ q, (k₁.processes q).id = (k.processes q).id := by
    refine (forall_update_iff k.processes fun q x => x.id = (k.processes q).id).mpr ?_
    exact ⟨rfl, fun _ _ => rfl⟩
  have hspace : ∀ q, (k₁.processes q).addressSpace = (k.processes q).addressSpace := by
    refine (forall_update_iff k.processes
      fun q x => x.addressSpace = (k.processes q).addressSpace).mpr ?_
    exact ⟨rfl, fun _ _ => rfl⟩
  have htask : ∀ u, u ≠ t → k₁.task u = k.task u := fun u hu => update_of_ne hu _ _
  have htask' : k₁.task t = task := update_self _ _ _
  refine ⟨h.initialized, ?_, h.counted, fun q => ?_, fun u q hu => ?_, ?_⟩
  · exact h.keyed.congr fun q _ => congrArg BitVec.toNat (hid q)
  · by_cases hq : q = p
    · subst hq
      refine ⟨items, ?_, hnodup, hroom, fun u => ?_⟩
      · show (update k.processes q { k.processes q with tasks := tasks } q).tasks.Represents _
        rw [update_self]
        exact hrep
      · by_cases hu : u = t
        · subst hu
          rw [htask']
          exact hself
        · rw [htask u hu]
          exact hothers u hu
    · obtain ⟨items', hrep', hnodup', hroom', hitems'⟩ := h.lists q
      have hsame : k₁.processes q = k.processes q := update_of_ne hq _ _
      rw [hsame]
      refine ⟨items', hrep', hnodup', hroom', fun u => ?_⟩
      rw [hitems']
      by_cases hu : u = t
      · subst hu
        rw [htask']
        exact iff_of_false (hold q hq) fun heq => hq (hnew q heq).1
      · rw [htask u hu]
  · rw [hspace q]
    by_cases hut : u = t
    · subst hut
      rw [htask'] at hu ⊢
      obtain ⟨rfl, hmem, haddr⟩ := hnew q hu
      exact ⟨hmem, haddr⟩
    · rw [htask u hut] at hu ⊢
      exact h.registered u q hu
  · intro q q' hq hq' heq
    rw [hspace, hspace] at heq
    exact h.spaces q q' hq hq' heq

/-! ## Attaching and detaching -/

/-- **`process_attach_task`** fails, or adds the task to both sides. -/
theorem attach (h : k.Membership) (p : ProcessRef) (t : TaskRef) :
    (∃ code, code ≠ 0 ∧ processAttachTask k p t = (code, k) ∧
        ¬ (k.processRegistry.Mem p ∧ (k.processes p).state = .active ∧ (k.task t).process = none ∧
          (k.task t).addressSpace = (k.processes p).addressSpace ∧
          (k.processes p).tasks.count < processMaxTasks)) ∨
      ∃ k', processAttachTask k p t = (0, k') ∧ k' =
          (k.setProcess p { k.processes p with tasks := (k.processes p).tasks.push t }).setTask t
            { k.task t with process := some p } ∧
        k.processRegistry.Mem p ∧ (k.task t).process = none ∧
        (k.task t).addressSpace = (k.processes p).addressSpace ∧ k'.Membership := by
  obtain ⟨items, hrep, hnodup, hbound, hitems⟩ := h.lists p
  unfold processAttachTask
  split_ifs with hactive hattached hspace hfull hlisted
  · refine .inl ⟨-2, by decide, rfl, fun hok => ?_⟩
    rw [h.contains_eq_false] at hactive
    exact hactive.elim (fun hnot => hnot hok.1) fun hnot => hnot hok.2.1
  · refine .inl ⟨-3, by decide, rfl, fun hok => ?_⟩
    rw [hok.2.2.1] at hattached
    cases hattached
  · exact .inl ⟨-4, by decide, rfl, fun hok => hspace hok.2.2.2.1⟩
  · exact .inl ⟨-5, by decide, rfl, fun hok => absurd hok.2.2.2.2 (Nat.not_lt.mpr hfull)⟩
  · -- the task does not point to the process, so it is not listed there
    rw [Option.not_isSome_iff_eq_none] at hattached
    have hnot : t ∉ items := by
      rw [hitems, hattached]
      exact nofun
    rw [hrep.indexOf_of_not_mem hnot] at hlisted
    cases hlisted
  · rw [not_or, h.contains_eq_false, not_not] at hactive
    rw [Option.not_isSome_iff_eq_none] at hattached
    rw [not_not] at hspace
    have hnot : t ∉ items := by
      rw [hitems, hattached]
      exact nofun
    refine .inr ⟨_, rfl, rfl, hactive.1, hattached, hspace, ?_⟩
    refine h.relist (hrep.push t) ?_ ?_ (fun u hu => ?_) ?_ (fun p' _ => ?_) fun p' hp' => ?_
    · exact nodup_append.mpr ⟨hnodup, nodup_singleton t, fun u hu v hv huv =>
        hnot (by rw [mem_singleton] at hv; rwa [← hv, ← huv])⟩
    · rw [length_append, length_singleton, ← hrep.count]
      omega
    · rw [mem_append, mem_singleton, or_iff_left hu]
      exact hitems u
    · simp
    · rw [hattached]
      exact nofun
    · obtain rfl : p = p' := Option.some.inj hp'
      exact ⟨rfl, hactive.1, hspace⟩

/-- **`process_detach_task`** succeeds exactly on members, and takes the task off both
sides. -/
theorem detach (h : k.Membership) (p : ProcessRef) (t : TaskRef) :
    (∃ code, code ≠ 0 ∧ processDetachTask k p t = (code, k) ∧ (k.task t).process ≠ some p) ∨
      ∃ index k', processDetachTask k p t = (0, k') ∧ (k.processes p).tasks.indexOf t = some index ∧
        k' = (k.setProcess p
          { k.processes p with tasks := (k.processes p).tasks.removeAt index }).setTask t
            { k.task t with process := none } ∧
        (k.task t).process = some p ∧ k'.Membership := by
  obtain ⟨items, hrep, hnodup, hbound, hitems⟩ := h.lists p
  rcases h.enrolled.detach hrep hnodup (fun t => (hitems t).mpr) t fun ht =>
    (h.registered t p ht).1 with
    hfail | ⟨index, rest, hindex, heq, hmember, hrest, hperm, hcons⟩
  · exact .inl hfail
  rw [nodup_cons] at hcons
  refine .inr ⟨index, _, heq, hindex, rfl, hmember, ?_⟩
  refine h.relist hrest hcons.2 ?_ (fun u hu => ?_) ?_ (fun p' hp' => ?_) nofun
  · have hlength := hperm.length_eq
    rw [length_cons] at hlength
    omega
  · rw [← hitems u, hperm.mem_iff, mem_cons, or_iff_right hu]
  · exact iff_of_false hcons.1 nofun
  · rw [hmember]
    exact fun heq => hp' (Option.some.inj heq).symm

/-- A member is found from either side. -/
theorem contains_task (h : k.Membership) (hmember : (k.task t).process = some p) :
    processContainsTask k p t = true := by
  obtain ⟨items, hrep, -, -, hitems⟩ := h.lists p
  obtain ⟨index, hindex, -⟩ := hrep.indexOf_of_mem ((hitems t).mpr hmember)
  rw [processContainsTask, hindex, hmember]
  simp

/-- Attaching a task and detaching it again leaves the process as it was. -/
theorem detach_attach (h : k.Membership) (hfree : (k.task t).process = none) {k₁ : Kernel}
    (hk₁ : k₁ = (k.setProcess p { k.processes p with
      tasks := (k.processes p).tasks.push t }).setTask t { k.task t with process := some p })
    (hattached : k₁.Membership) : processDetachTask k₁ p t = (0, k) := by
  obtain ⟨items, hrep, -, -, hitems⟩ := h.lists p
  have htask : k₁.task t = { k.task t with process := some p } := by
    rw [hk₁]
    exact update_self _ _ _
  have hprocess : k₁.processes p =
      { k.processes p with tasks := (k.processes p).tasks.push t } := by
    rw [hk₁]
    exact update_self _ _ _
  have hnot : t ∉ items := by
    rw [hitems, hfree]
    exact nofun
  rcases hattached.detach p t with ⟨code, -, -, hmember⟩ | ⟨index, k', heq, hindex, hk', -, -⟩
  · rw [htask] at hmember
    exact absurd rfl hmember
  · -- the new member is the last one
    have hlast : index = (k.processes p).tasks.count := by
      rw [hprocess] at hindex
      obtain ⟨found, hfound, hslot⟩ := (hrep.push t).indexOf_of_mem (x := t) (by simp)
      obtain rfl : index = found := Option.some.inj (hindex.symm.trans hfound)
      rw [hrep.count]
      by_contra hne
      by_cases hlt : index < items.length
      · rw [List.getElem?_append_left hlt] at hslot
        exact hnot (mem_of_getElem? hslot)
      · rw [List.getElem?_eq_none (by simp; omega)] at hslot
        cases hslot
    have hslots : (k.processes p).tasks.slots (k.processes p).tasks.count = none := by
      rw [hrep.slots, hrep.count, List.getElem?_eq_none le_rfl]
    rw [heq, hk', htask, hprocess, hlast, DenseArray.removeAt_push _ _ hslots, hk₁]
    simp only [Kernel.setTask, Kernel.setProcess, Sched.setTask, update_idem]
    refine congrArg (Prod.mk 0) ?_
    rw [show ({ k.processes p with tasks := (k.processes p).tasks } : Process) =
      k.processes p from rfl, update_eq_self]
    have hself : ({ k.task t with process := none } : Task) = k.task t := by rw [← hfree]
    rw [hself, update_eq_self]

/-! ## The life of a process -/

/-- A change of state alone. -/
theorem setState (h : k.Membership) (p : ProcessRef) (state : ProcessState) :
    (k.setProcess p { k.processes p with state := state }).Membership := by
  have hkeep : ∀ q, let x := (k.setProcess p { k.processes p with state := state }).processes q
      x.id = (k.processes q).id ∧ x.addressSpace = (k.processes q).addressSpace ∧
        x.tasks = (k.processes q).tasks := by
    refine (forall_update_iff k.processes fun q x => x.id = (k.processes q).id ∧
      x.addressSpace = (k.processes q).addressSpace ∧ x.tasks = (k.processes q).tasks).mpr ?_
    exact ⟨⟨rfl, rfl, rfl⟩, fun _ _ => ⟨rfl, rfl, rfl⟩⟩
  refine ⟨h.initialized, ?_, h.counted, fun q => ?_, fun t q ht => ?_, fun q q' hq hq' heq => ?_⟩
  · exact h.keyed.congr fun q _ => congrArg BitVec.toNat (hkeep q).1
  · rw [(hkeep q).2.2]
    exact h.lists q
  · rw [(hkeep q).2.1]
    exact h.registered t q ht
  · rw [(hkeep q).2.1, (hkeep q').2.1] at heq
    exact h.spaces q q' hq hq' heq

/-- **`process_transition`** fails, or changes the state of a registered process. -/
theorem transition (h : k.Membership) (p : ProcessRef) (target : ProcessState) :
    (∃ code, code ≠ 0 ∧ processTransition k p target = (code, k) ∧
        ¬ ((k.processes p).state.allows target = true ∧ k.processRegistry.Mem p)) ∨
      (processTransition k p target =
          (0, k.setProcess p { k.processes p with state := target }) ∧
        (k.setProcess p { k.processes p with state := target }).Membership) := by
  unfold processTransition
  split_ifs with hallowed hmem
  · refine .inl ⟨-2, by decide, rfl, fun hok => ?_⟩
    rw [hok.1] at hallowed
    cases hallowed
  · exact .inl ⟨-3, by decide, rfl, fun hok => (h.contains_eq_false p).mp hmem.2 hok.2⟩
  · exact .inr ⟨rfl, h.setState p target⟩

/-- **`process_terminate`** ends a process that is active. -/
theorem terminate (h : k.Membership) (p : ProcessRef) :
    (∃ code, code ≠ 0 ∧ processTerminate k p = (code, k) ∧
        ¬ ((k.processes p).state = .active ∧ k.processRegistry.Mem p)) ∨
      (processTerminate k p = (0, k.setProcess p { k.processes p with state := .terminated }) ∧
        (k.setProcess p { k.processes p with state := .terminated }).Membership) := by
  unfold processTerminate
  split_ifs with hmem
  · exact .inl ⟨-2, by decide, rfl, fun hok => (h.contains_eq_false p).mp hmem hok.2⟩
  · rcases h.transition p .terminated with ⟨code, hcode, heq, hnot⟩ | hdone
    · refine .inl ⟨code, hcode, heq, fun hok => hnot ⟨?_, hok.2⟩⟩
      rw [hok.1]
      rfl
    · exact .inr hdone

/-- An object that is not registered takes on a new identity, which nobody sees yet. -/
theorem setProcess (h : k.Membership) (hp : ¬ k.processRegistry.Mem p) (process : Process)
    (htasks : process.tasks = .empty) : (k.setProcess p process).Membership := by
  have hsame : ∀ q, q ≠ p → (k.setProcess p process).processes q = k.processes q :=
    fun q hq => update_of_ne hq _ _
  have hne : ∀ q, k.processRegistry.Mem q → q ≠ p := by
    rintro q hq rfl
    exact hp hq
  refine ⟨h.initialized, ?_, h.counted, fun q => ?_, fun t q ht => ?_, fun q q' hq hq' heq => ?_⟩
  · exact h.keyed.congr fun q hq => by rw [hsame q (hne q hq)]
  · by_cases hq : q = p
    · subst hq
      obtain ⟨items, hrep, hlist⟩ := h.lists q
      have hself : (k.setProcess q process).processes q = process := update_self _ _ _
      rw [hself, htasks, ← h.tasks_of_not_mem hp]
      exact ⟨items, hrep, hlist⟩
    · rw [hsame q hq]
      exact h.lists q
  · obtain ⟨hq, hspace⟩ := h.registered t q ht
    rw [hsame q (hne q hq)]
    exact ⟨hq, hspace⟩
  · rw [hsame q (hne q hq), hsame q' (hne q' hq')] at heq
    exact h.spaces q q' hq hq' heq

/-- An object enters the registry, with an address space nobody has. -/
theorem enroll (h : k.Membership) (hfree : k.processRegistry.slots index = none)
    (hid : (k.processes p).id.toNat = index.val + 1)
    (hspace : ∀ q, k.processRegistry.Mem q → (k.processes q).addressSpace ≠ (k.processes
      p).addressSpace) :
    ({ k with processRegistry := k.processRegistry.insert index p } : Kernel).Membership := by
  have hmem : ∀ q, (k.processRegistry.insert index p).Mem q ↔ q = p ∨ k.processRegistry.Mem q :=
    fun q => IdTable.mem_insert_of_free hfree
  refine ⟨h.initialized, h.keyed.insert hid, h.counted.insert hfree p, h.lists, fun t q ht => ?_,
    fun q q' hq hq' heq => ?_⟩
  · obtain ⟨hq, haddr⟩ := h.registered t q ht
    exact ⟨(hmem q).mpr (.inr hq), haddr⟩
  · rcases (hmem q).mp hq with hqp | hqold <;> rcases (hmem q').mp hq' with hqp' | hqold'
    · rw [hqp, hqp']
    · exact absurd (hqp ▸ heq.symm) (hspace q' hqold')
    · exact absurd (hqp' ▸ heq) (hspace q hqold)
    · exact h.spaces q q' hqold hqold' heq

/-- A process without members leaves the registry. -/
theorem expel (h : k.Membership) (hslot : k.processRegistry.slots index = some p)
    (hempty : (k.processes p).tasks.count = 0) :
    ({ k with processRegistry := k.processRegistry.erase index } : Kernel).Membership ∧
      ¬ (k.processRegistry.erase index).Mem p := by
  have hmem : ∀ q, (k.processRegistry.erase index).Mem q ↔ k.processRegistry.Mem q ∧ q ≠ p :=
    fun q => h.keyed.mem_erase hslot
  refine ⟨⟨h.initialized, h.keyed.erase, h.counted.erase hslot, h.lists, fun t q ht => ?_,
    fun q q' hq hq' heq => ?_⟩, fun hp => ((hmem p).mp hp).2 rfl⟩
  · obtain ⟨hq, haddr⟩ := h.registered t q ht
    refine ⟨(hmem q).mpr ⟨hq, ?_⟩, haddr⟩
    rintro rfl
    obtain ⟨items, hrep, -, -, hitems⟩ := h.lists q
    rw [hrep.count, length_eq_zero_iff] at hempty
    rw [hempty] at hitems
    exact absurd ((hitems t).mpr ht) not_mem_nil
  · exact h.spaces q q' ((hmem q).mp hq).1 ((hmem q').mp hq').1 heq

/-- **`process_create`** fails, at most clearing an object that is not registered, or
registers the object with no members. -/
theorem create (h : k.Membership) (p : ProcessRef) (pid addressSpace : Word) :
    (∃ code k', code ≠ 0 ∧ processCreate k p pid addressSpace = (code, k') ∧
        (k' = k ∨ ¬ k.processRegistry.Mem p ∧ k' = k.setProcess p {})) ∨
      ∃ index k', processCreate k p pid addressSpace = (0, k') ∧
        ¬ k.processRegistry.Mem p ∧ k.processRegistry.slots index = none ∧
        k' = { k.setProcess p { id := pid, state := .active, addressSpace := addressSpace } with
          processRegistry := k.processRegistry.insert index p } ∧ k'.Membership := by
  rcases h.enrolled.create p pid addressSpace with
    hfail | ⟨index, hmem, hfree, hid, -, htaken, heq⟩
  · exact .inl hfail
  set process : Process := { id := pid, state := .active, addressSpace := addressSpace }
  have hself : (k.setProcess p process).processes p = process := update_self _ _ _
  refine .inr ⟨index, _, heq, hmem, hfree, rfl, ?_⟩
  refine (h.setProcess hmem process rfl).enroll hfree (by rw [hself]; exact hid) fun q hq => ?_
  have hne : q ≠ p := by
    rintro rfl
    exact hmem hq
  rw [hself, show (k.setProcess p process).processes q = k.processes q from
    update_of_ne hne _ _]
  exact htaken q hq

/-- **`process_destroy`** fails, or removes a process that has ended and has no members. -/
theorem destroy (h : k.Membership) (p : ProcessRef) :
    (∃ code, code ≠ 0 ∧ processDestroy k p = (code, k) ∧
        ¬ (k.processRegistry.Mem p ∧ (k.processes p).state = .terminated ∧
          (k.processes p).tasks.count = 0)) ∨
      ∃ index k', processDestroy k p = (0, k') ∧ k.processRegistry.slots index = some p ∧
        k' = { k with processRegistry := k.processRegistry.erase index }.setProcess p {} ∧
        ¬ k'.processRegistry.Mem p ∧ k'.Membership := by
  rcases h.enrolled.destroy h.counted p with hfail | ⟨index, hslot, hempty, heq⟩
  · exact .inl hfail
  · obtain ⟨hexpelled, hgone⟩ := h.expel hslot hempty
    exact .inr ⟨index, _, heq, hslot, rfl, hgone, hexpelled.setProcess hgone {} rfl⟩

end Kernel.Membership

/-! ## Processes in any state -/

theorem processTerminate_outcome (k : Kernel) (p : ProcessRef) :
    (processTerminate k p).2 = k ∨
      (processTerminate k p).2 = k.setProcess p { k.processes p with state := .terminated } := by
  unfold processTerminate processTransition
  split_ifs
  · exact .inl rfl
  · exact .inl rfl
  · exact .inl rfl
  · exact .inr rfl

/-- `process_destroy` empties a slot, at most. -/
theorem processDestroy_outcome (k : Kernel) (p : ProcessRef) :
    (processDestroy k p).2 = k ∨
      ∃ index, k.processRegistry.slots index = some p ∧ (processDestroy k p).2 =
        { k with processRegistry := k.processRegistry.erase index }.setProcess p {} := by
  unfold processDestroy
  split_ifs
  · exact .inl rfl
  · exact .inl rfl
  · exact .inl rfl
  unfold processRegistryUnregister
  cases IdTable.slotOf processMaxProcesses (k.processes p).id.toNat with
  | none => split_ifs <;> exact .inl rfl
  | some index =>
      dsimp only
      split_ifs with _ hslot
      · exact .inl rfl
      · exact .inl rfl
      · exact .inl rfl
      · exact .inr ⟨index, not_not.mp hslot, rfl⟩

/-- Processes come and go without the VMM. -/
theorem vmm_processCreate {k : Kernel} (h : k.Enrolled) (p : ProcessRef) (pid root : Word) :
    (processCreate k p pid root).2.vmm = k.vmm := by
  rcases h.create p pid root with ⟨code, k', -, heq, rfl | ⟨-, rfl⟩⟩ | ⟨index, -, -, -, -, -, heq⟩
  · rw [heq]
  · rw [heq]
    rfl
  · rw [heq]
    rfl

theorem vmm_processTerminate (k : Kernel) (p : ProcessRef) :
    (processTerminate k p).2.vmm = k.vmm := by
  rcases processTerminate_outcome k p with heq | heq
  · rw [heq]
  · rw [heq]
    rfl

theorem vmm_processDestroy (k : Kernel) (p : ProcessRef) : (processDestroy k p).2.vmm = k.vmm := by
  rcases processDestroy_outcome k p with heq | ⟨index, -, heq⟩
  · rw [heq]
  · rw [heq]
    rfl

/-! ## The checks of the reaper -/

/-- What the reaper checks before it releases anything. -/
structure Kernel.Reapable (k : Kernel) (t : TaskRef) : Prop where
  state : (k.task t).state = .terminated
  current : k.sched.current ≠ some t
  resume : (k.task t).resumeAuthority = .none
  waits : (k.task t).waitQueue = none
  queued : k.sched.runqueue.contains t = false
  registered : taskRegistryContains k t = true
  listed : ∀ p, (k.task t).process = some p → processContainsTask k p t = true

/-- The process releases its task, if there is one. -/
def detachOwner (k : Kernel) (t : TaskRef) : Call :=
  match (k.task t).process with
  | some p => processDetachTask k p t
  | none => (0, k)

/-- After the checks the owners are released in turn. -/
def releaseOwners (k : Kernel) (t : TaskRef) : Call :=
  Call.andThen (detachOwner k t) (Kernel.fail (-10)) fun k =>
  Call.andThen (taskRegistryUnregister k t) (Kernel.fail (-11)) fun k =>
  Call.andThen (taskDestroy k t) (Kernel.fail (-12)) fun k =>
  (0, { k with lifecycle := k.lifecycle.pop.2 })

section Head

variable {k : Kernel} {t : TaskRef}
  (hslot : k.lifecycle.ring.slots k.lifecycle.ring.head = some t)

include hslot

/-- The checks of the reaper pass. -/
theorem reclaimHead_of_reapable (h : k.Reapable t) : reclaimHead k = releaseOwners k t := by
  have hlisted : ((k.task t).process.any fun p => !processContainsTask k p t) = false := by
    cases hprocess : (k.task t).process with
    | none => rfl
    | some p => simp [h.listed p hprocess]
  unfold reclaimHead
  rw [hslot]
  dsimp only
  rw [if_neg (not_not.mpr h.state), if_neg h.current, if_neg (not_not.mpr h.resume),
    if_neg (by simp [h.waits]), if_neg (by simp [h.queued]), if_neg (by simp [h.registered]),
    hlisted]
  rfl

/-- A failed check leaves the state alone. -/
theorem reclaimHead_of_not_reapable (h : ¬ k.Reapable t) :
    ∃ code, code < 0 ∧ reclaimHead k = (code, k) := by
  unfold reclaimHead
  rw [hslot]
  dsimp only
  split_ifs with hstate hcurrent hresume hwaits hqueued hregistered hlisted
  · exact ⟨-3, by simp, rfl⟩
  · exact ⟨-4, by simp, rfl⟩
  · exact ⟨-5, by simp, rfl⟩
  · exact ⟨-6, by simp, rfl⟩
  · exact ⟨-7, by simp, rfl⟩
  · exact ⟨-8, by simp, rfl⟩
  · exact ⟨-9, by simp, rfl⟩
  · refine absurd ⟨not_not.mp hstate, hcurrent, not_not.mp hresume, by simpa using hwaits,
      by simpa using hqueued, by simpa using hregistered, fun p hprocess => ?_⟩ h
    rw [hprocess] at hlisted
    simpa using hlisted

end Head

theorem reclaimHead_refuses_or_releases (k : Kernel) :
    (∃ code, code < 0 ∧ reclaimHead k = (code, k)) ∨ ∃ t, reclaimHead k = releaseOwners k t := by
  cases hslot : k.lifecycle.ring.slots k.lifecycle.ring.head with
  | none => exact .inl ⟨-2, by simp, by rw [reclaimHead, hslot]⟩
  | some t =>
      by_cases hreap : k.Reapable t
      · exact .inr ⟨t, reclaimHead_of_reapable hslot hreap⟩
      · exact .inl (reclaimHead_of_not_reapable hslot hreap)

end Batos
