import Batos.Sched.Stack

/-!
# Task creation

What `task_create` leaves behind.  A call that succeeds produces a task that is ready
to run, with its first continuation staged (`taskCreate_outcome`).  A call that fails
does so before it touches anything, or in the loop that maps the stack, and then
everything depends on whether a page of the slot was mapped before: if none was, nobody
can tell that the call was made; if one was, it belongs to another task of the same id,
and the rollback takes it away (`undisturbed_rollback_iff`, `taskCreate_of_occupied`).
-/

namespace Batos

variable {s s' : Paging} {t : Task} {frames : Fin 4 → Word} {root base : Word}

/-- The task a successful `task_create` leaves. -/
def freshTask (layout : TaskLayout) (id addressSpace entry argument : Word)
    (frames : Fin 4 → Word) :
    Task where
  id := id
  state := .ready
  kernelStackBase := taskStackVirtualFor layout id
  kernelStackTop := taskStackVirtualFor layout id + 0x4000
  kernelStackPages := frames
  addressSpace := addressSpace
  entry := entry
  argument := argument
  resumeAuthority := .context
  preemptState := ⟨taskStackVirtualFor layout id + 0x4000 - 24 - 152, true⟩
  context :=
    { rsp := taskStackVirtualFor layout id + 0x4000 - 24
      rip := layout.trampoline }

/-- The task a failed `task_create` leaves: named, but without a stack. -/
def stacklessTask (id addressSpace entry argument : Word) : Task :=
  { id := id, addressSpace := addressSpace, entry := entry, argument := argument,
    resumeAuthority := .context }

/-- The words a successful `task_create` stores on the last page of the new stack: the two words
of the cooperative entry, and the interrupt frame below them. -/
def firstRunStores (layout : TaskLayout) (taskAddress stackTop : Word) : List (Fin 512 × Word) :=
  (pageIndex 3 (stackTop - 24), 0) :: (pageIndex 3 (stackTop - 24 + 8), taskAddress) ::
    (firstRunFrame layout).zipIdx.map fun word =>
      (pageIndex 3 (stackTop - 24 - 152 + 8 * BitVec.ofNat 64 word.2), word.1)

/-- Stores into a frame that is no table are not seen by the map of tables. -/
theorem tables_stores (words : List (Fin 512 × Word)) {a : Word} (ha : s.Foreign a) :
    (words.foldl (fun s w => s.write a w.1 w.2) s).tables = s.tables := by
  induction words generalizing s with
  | nil => rfl
  | cons word words ih =>
      rw [List.foldl_cons, ih (ha.write ha word.1 word.2), ha.tables_write]

section Create

variable (layout : TaskLayout) (taskAddress : Word) {v : Vmm} (task : Task)
  {id addressSpace entry : Word} (argument : Word)

theorem taskCreateAccepts_iff :
    taskCreateAccepts id addressSpace entry = true ↔
      id ≠ 0 ∧ id.toNat ≤ taskMaxTasks ∧ addressSpace ≠ 0 ∧ entry ≠ 0 := by
  simp [taskCreateAccepts, and_assoc]

/-- The synthetic interrupt frame fits the stack and is aligned, so that staging it
does not fail. -/
theorem preemptPrepareFirstRun_eq (s : Paging) (hbase : t.kernelStackBase ≠ 0)
    (haligned : t.kernelStackBase.toNat % 4096 = 0)
    (hfits : t.kernelStackBase.toNat + 0x4000 < 2 ^ 64)
    (htop : t.kernelStackTop = t.kernelStackBase + 0x4000) :
    preemptPrepareFirstRun layout s t =
      some (⟨t.kernelStackTop - 24 - 152, true⟩,
        ((firstRunFrame layout).zipIdx.map fun word =>
          (pageIndex 3 (t.kernelStackTop - 24 - 152 + 8 * BitVec.ofNat 64 word.2), word.1)).foldl
            (fun s w => s.write (t.kernelStackPages 3) w.1 w.2) s) := by
  have hpos : 0 < t.kernelStackBase.toNat := by
    rw [Nat.pos_iff_ne_zero]
    exact fun hzero => hbase (BitVec.eq_of_toNat_eq hzero)
  have htopNat : t.kernelStackTop.toNat = t.kernelStackBase.toNat + 0x4000 := by
    rw [htop, BitVec.toNat_add]
    exact Nat.mod_eq_of_lt hfits
  have hframe : (t.kernelStackTop - 24 - 152).toNat = t.kernelStackBase.toNat + 0x4000 - 176 := by
    rw [BitVec.toNat_sub, BitVec.toNat_sub, htopNat]
    change (2 ^ 64 - 152 + (2 ^ 64 - 24 + _) % 2 ^ 64) % 2 ^ 64 = _
    omega
  have htopne : t.kernelStackTop ≠ 0 := by
    intro hzero
    rw [hzero] at htopNat
    change 0 = _ at htopNat
    omega
  have hlow : ¬ t.kernelStackTop - 24 - 152 < t.kernelStackBase := by
    rw [BitVec.lt_def, hframe]
    omega
  have hmask : (t.kernelStackTop - 24 - 152) &&& 0xF = 0 := by
    apply BitVec.eq_of_toNat_eq
    rw [BitVec.toNat_and, hframe]
    refine (Nat.and_two_pow_sub_one_eq_mod _ 4).trans ?_
    change _ = 0
    omega
  unfold preemptPrepareFirstRun
  rw [if_neg (by rintro (h | h); exacts [htopne h, hbase h]), if_neg hlow,
    if_neg (not_not.mpr hmask)]
  rw [List.foldl_map]
  rfl

/-- Staging succeeds, and stores to the last page of the stack only. -/
theorem stageFirstRun_eq (hstate : t.state = .new) (hbase : t.kernelStackBase ≠ 0)
    (haligned : t.kernelStackBase.toNat % 4096 = 0)
    (hfits : t.kernelStackBase.toNat + 0x4000 < 2 ^ 64)
    (htop : t.kernelStackTop = t.kernelStackBase + 0x4000) :
    stageFirstRun layout taskAddress t v =
      (0, { t with
          state := .ready
          preemptState := ⟨t.kernelStackTop - 24 - 152, true⟩
          context := { t.context with rsp := t.kernelStackTop - 24, rip := layout.trampoline } },
        { v with
          paging := (firstRunStores layout taskAddress t.kernelStackTop).foldl
            (fun s w => s.write (t.kernelStackPages 3) w.1 w.2) v.paging }) := by
  have heq := preemptPrepareFirstRun_eq layout
    (storeOnStack t (storeOnStack t v.paging (t.kernelStackTop - 24) 0)
      (t.kernelStackTop - 24 + 8) taskAddress)
    (t := { t with
      context := { t.context with rsp := t.kernelStackTop - 24, rip := layout.trampoline } })
    hbase haligned hfits htop
  unfold stageFirstRun
  dsimp only
  rw [heq]
  dsimp only
  rw [taskTransition_of_allows (by dsimp only; rw [hstate]; rfl), firstRunStores, List.foldl_cons,
    List.foldl_cons]
  rfl

theorem taskStackVirtualFor_ne_zero (hid : id ≠ 0) (hmax : id.toNat ≤ taskMaxTasks) :
    taskStackVirtualFor layout id ≠ 0 := by
  intro hzero
  have hslot := stackSlot layout hid hmax
  rw [hzero] at hslot
  exact absurd hslot.2.2 (by change 0 ≠ _; omega)

variable (v) in
/-- **How a call ends.**  It is refused at once, and changes nothing; or the loop that maps
the stack fails, and is rolled back; or the loop succeeds, and leaves a task that is ready to
run. -/
theorem taskCreate_outcome (id addressSpace entry : Word) :
    (taskCreateAccepts id addressSpace entry = false ∨ addressSpace ≠ vmmGetPml4 v) ∧
        (∃ task', taskCreate layout taskAddress v task id addressSpace entry argument =
          (-1, task', v) ∧
          (taskCreateAccepts id addressSpace entry = true →
            task' = stacklessTask id addressSpace entry argument)) ∨
      taskCreateAccepts id addressSpace entry = true ∧ addressSpace = vmmGetPml4 v ∧
        ∃ complete s frames, mapStackPages addressSpace (taskStackVirtualFor layout id)
          stackPages v.paging (fun _ => 0) =
            (complete, s, frames) ∧
          (complete = false ∧ taskCreate layout taskAddress v task id addressSpace entry argument =
              (-1, stacklessTask id addressSpace entry argument,
                { v with paging :=
                  rollbackStackPages addressSpace (taskStackVirtualFor layout id) s }) ∨
            complete = true ∧ taskCreate layout taskAddress v task id addressSpace entry argument =
              (0, freshTask layout id addressSpace entry argument frames,
                { v with
                  paging := (firstRunStores layout taskAddress
                    (taskStackVirtualFor layout id + 0x4000)).foldl
                      (fun s w => s.write (frames 3) w.1 w.2) s })) := by
  unfold taskCreate
  cases haccepts : taskCreateAccepts id addressSpace entry with
  | false => exact .inl ⟨.inl rfl, task, rfl, nofun⟩
  | true =>
      obtain ⟨hid, hmax, -⟩ := taskCreateAccepts_iff.mp haccepts
      have hslot := stackSlot layout hid hmax
      rw [if_neg (by decide), taskMapStack, if_neg (taskStackVirtualFor_ne_zero layout hid hmax)]
      by_cases hspace : addressSpace = vmmGetPml4 v
      swap
      · rw [if_pos hspace]
        exact .inl ⟨.inr hspace, _, rfl, fun _ => rfl⟩
      rw [if_neg (not_not.mpr hspace)]
      refine .inr ⟨rfl, hspace, ?_⟩
      cases hloop : mapStackPages addressSpace (taskStackVirtualFor layout id) stackPages v.paging
          (fun _ => 0) with
      | mk complete result =>
          obtain ⟨s, frames⟩ := result
          refine ⟨complete, s, frames, rfl, ?_⟩
          cases complete with
          | false => exact .inl ⟨rfl, rfl⟩
          | true =>
              refine .inr ⟨rfl, (if_neg (not_not.mpr rfl)).trans ?_⟩
              exact stageFirstRun_eq layout taskAddress (v := { v with paging := s })
                (t := { id := id, addressSpace := addressSpace, entry := entry,
                        argument := argument, resumeAuthority := .context,
                        kernelStackPages := frames,
                        kernelStackBase := taskStackVirtualFor layout id,
                        kernelStackTop := taskStackVirtualFor layout id + 0x4000 })
                rfl (taskStackVirtualFor_ne_zero layout hid hmax) (by dsimp only; omega)
                (by dsimp only; omega) rfl

/-- The loop leads to a staged state, in which every page is mapped if it has run to its end. -/
theorem taskCreate_stages (h : v.paging.Inv ∅)
    (haccepts : taskCreateAccepts id addressSpace entry = true) {complete : Bool}
    (hloop : mapStackPages addressSpace (taskStackVirtualFor layout id) stackPages v.paging
      (fun _ => 0) = (complete, s, frames)) :
    StackWindow (taskStackVirtualFor layout id) ∧ ∃ staged,
      Staged addressSpace (taskStackVirtualFor layout id) v.paging staged s ∧
        (complete = true → ∀ page, staged page = some (frames page)) := by
  obtain ⟨hid, hmax, -⟩ := taskCreateAccepts_iff.mp haccepts
  have hwin := stackWindow_taskStackVirtualFor layout hid hmax
  obtain ⟨complete', s', frames', staged, heq, hstaged, hrecorded⟩ := mapStackPages_staged hwin
    (List.nodup_finRange 4) (Staged.refl addressSpace _ h) (fun _ _ => rfl) fun _ => 0
  rw [hloop, Prod.mk.injEq, Prod.mk.injEq] at heq
  obtain ⟨rfl, rfl, rfl⟩ := heq
  refine ⟨hwin, staged, hstaged, fun hdone page => ?_⟩
  exact (hrecorded hdone page).resolve_right fun hnot => hnot.1 (List.mem_finRange page)

end Create

/-! ## Failed calls -/

/-- Nobody has lost a page of the address space, and the only frames that changed hands
are those of new page tables. -/
structure Undisturbed (root : Word) (s s' : Paging) : Prop where
  mapped : ∀ va pa, vmmTranslate s root va = some pa → vmmTranslate s' root va = some pa
  used : ∀ f, s'.pmm.used f = true ↔ s.pmm.used f = true ∨
    ∃ q, findPageTableRecord s q = none ∧ findPageTableRecord s' q ≠ none ∧ frameOf q = f

/-- No page of the stack is mapped.  A huge leaf of the boot loader over the window
does not count: neither mapping nor unmapping a page touches it. -/
def SlotClear (root base : Word) (s : Paging) : Prop :=
  ∀ page entry, s.tables.lookup root (stackPage base page) ≠ some (0, entry)

theorem Undisturbed.refl (root : Word) (s : Paging) : Undisturbed root s s := by
  refine ⟨fun _ _ h => h, fun f => ⟨.inl, ?_⟩⟩
  rintro (h | ⟨q, hnone, hsome, -⟩)
  · exact h
  · exact absurd hnone hsome

/-- When nothing is staged any more, nothing has happened. -/
theorem Staged.undisturbed {frames : Fin 4 → Option Word} (h : Staged root base s frames s')
    (hnone : ∀ page, frames page = none) :
    Undisturbed root s s' := by
  have hnot : ∀ {page a}, frames page ≠ some a := by
    intro page a hsome
    rw [hnone page] at hsome
    cases hsome
  refine ⟨fun va pa htranslate => ?_, fun f => ?_⟩
  · rw [vmmTranslate_congr (h.other va fun page a hpage => absurd hpage hnot)]
    exact htranslate
  · rw [h.used f]
    simp only [tables_eq_none, ne_eq]
    refine ⟨fun hf => hf.resolve_right ?_, .inl⟩
    rintro ⟨page, a, hpage, -⟩
    exact hnot hpage

/-- **The rollback restores what it should exactly when the slot was clear.** -/
theorem undisturbed_rollback_iff (hwin : StackWindow base) (h : s.Inv ∅) {recorded : Fin 4 → Word}
    (hloop : mapStackPages root base stackPages s recorded = (false, s', frames)) :
    Undisturbed root s (rollbackStackPages root base s') ↔ SlotClear root base s := by
  obtain ⟨complete, s'', recorded', frames', heq, hstaged, -⟩ := mapStackPages_staged hwin
    (List.nodup_finRange 4) (Staged.refl root base h) (fun _ _ => rfl) recorded
  rw [hloop, Prod.mk.injEq, Prod.mk.injEq] at heq
  obtain ⟨-, rfl, -⟩ := heq
  constructor
  · -- a page that was mapped is not staged, so the rollback finds it and unmaps it
    intro hundisturbed page entry hleaf
    have hnone : frames' page = none := by
      cases hpage : frames' page with
      | none => rfl
      | some a =>
          rw [(hstaged.mapped hpage).1] at hleaf
          cases hleaf
    have hgone := rollbackStackPages_unmaps hwin stackPages hstaged.inv.wf
      (.inl (List.mem_finRange page))
      (.inr ((hstaged.lookup_page hwin hnone).trans hleaf))
    have hkept := hundisturbed.mapped _ _ (vmmTranslate_of_page hleaf)
    have hsome := congrArg Option.isSome hkept
    rw [vmmTranslate_isSome, rollbackStackPages, hgone] at hsome
    cases hsome
  · intro hclear
    obtain ⟨frames'', hstaged', hnone⟩ := hstaged.rollback hwin hclear stackPages
    exact hstaged'.undisturbed fun page => hnone page (.inl (List.mem_finRange page))

section Slots

variable (layout : TaskLayout) (taskAddress : Word) {v : Vmm} (task : Task)
  {id addressSpace entry : Word} (argument : Word) (h : v.paging.Inv ∅)
  (haccepts : taskCreateAccepts id addressSpace entry = true) (hspace : addressSpace = vmmGetPml4 v)

include h haccepts

/-- **A successful call maps the whole stack**, on a slot that was not in use. -/
theorem taskCreate_occupies
    (hok : (taskCreate layout taskAddress v task id addressSpace entry argument).1 = 0)
    (page : Fin 4) :
    v.paging.tables.lookup addressSpace (stackPage (taskStackVirtualFor layout id) page) = none ∧
      ∃ frame, (taskCreate layout taskAddress v task id addressSpace entry
          argument).2.2.paging.tables.lookup addressSpace
        (stackPage (taskStackVirtualFor layout id) page) =
          some (0, leafEntry frame vmmWritable) := by
  rcases taskCreate_outcome layout taskAddress v task argument id addressSpace entry with
    ⟨-, task', heq, -⟩ | ⟨-, -, complete, s, frames, hloop, ⟨-, heq⟩ | ⟨rfl, heq⟩⟩
  · rw [heq] at hok
    exact absurd hok (by decide : (-1 : ℤ) ≠ 0)
  · rw [heq] at hok
    exact absurd hok (by decide : (-1 : ℤ) ≠ 0)
  · obtain ⟨-, staged, hstaged, hframe⟩ := taskCreate_stages layout h haccepts hloop
    refine ⟨(hstaged.mapped (hframe rfl page)).1, frames page, ?_⟩
    rw [heq]
    dsimp only
    rw [tables_stores _ (hstaged.owned (hframe rfl 3)).1]
    exact (hstaged.mapped (hframe rfl page)).2

include hspace in
/-- **A call on a slot in use fails and takes the mapped pages away.** -/
theorem taskCreate_of_occupied {page : Fin 4} {leaf : Word}
    (hleaf : v.paging.tables.lookup addressSpace (stackPage (taskStackVirtualFor layout id) page) =
      some (0, leaf)) :
    (taskCreate layout taskAddress v task id addressSpace entry argument).1 = -1 ∧
      (taskCreate layout taskAddress v task id addressSpace entry
          argument).2.2.paging.tables.lookup addressSpace
        (stackPage (taskStackVirtualFor layout id) page) = none := by
  rcases taskCreate_outcome layout taskAddress v task argument id addressSpace entry with
    ⟨hrefused, -⟩ | ⟨-, -, complete, s, frames, hloop, hresult⟩
  · rcases hrefused with hrefused | hrefused
    · rw [haccepts] at hrefused
      cases hrefused
    · exact absurd hspace hrefused
  obtain ⟨hwin, staged, hstaged, hframe⟩ := taskCreate_stages layout h haccepts hloop
  have hnone : staged page = none := by
    cases hpage : staged page with
    | none => rfl
    | some a =>
        rw [(hstaged.mapped hpage).1] at hleaf
        cases hleaf
  rcases hresult with ⟨rfl, heq⟩ | ⟨rfl, -⟩
  · rw [heq]
    exact ⟨rfl, rollbackStackPages_unmaps hwin stackPages hstaged.inv.wf
      (.inl (List.mem_finRange page)) (.inr ((hstaged.lookup_page hwin hnone).trans hleaf))⟩
  · cases (hframe rfl page).symm.trans hnone

end Slots

end Batos
