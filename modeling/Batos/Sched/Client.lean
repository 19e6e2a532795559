import Batos.Sched.Create

/-!
# Task creation as a client of the memory subsystem

Everything `task_create` does to memory is a sequence of operations a client of the
memory subsystem may perform: it takes frames, maps them, stores into them, unmaps
them and gives them back.  The one point that needs an argument is the rollback, which
frees whatever it finds mapped in the stack slot.  As long as the window of the task
stacks holds nothing but frames clients have taken, those are the client's to free
(`WindowOwned`), and that is what every `task_create` maintains.

So the states the memory subsystem can reach include all those with any set of tasks,
created in any order and with any ids (`taskCreate_reachable`).
-/

namespace Batos

variable {image : KernelImage} {m m' : Mm} {base : Word}

/-- The addresses the linker script reserves for task stacks. -/
def TaskLayout.window (layout : TaskLayout) : Set Word :=
  { va | layout.stackStart.toNat ≤ va.toNat ∧ va.toNat < layout.stackStart.toNat + 0x500000 }

/-- The pages mapped in a window are frames held by clients, one frame for each page. -/
structure WindowOwned (root : Word) (window : Set Word) (m : Mm) : Prop where
  held : ∀ {va entry}, va ∈ window → m.vmm.paging.tables.lookup root va = some (0, entry) →
    entryAddress entry ∈ m.held
  inj : ∀ {va va' entry entry'}, va ∈ window → va' ∈ window →
    m.vmm.paging.tables.lookup root va = some (0, entry) →
    m.vmm.paging.tables.lookup root va' = some (0, entry') →
    entryAddress entry = entryAddress entry' → Tables.SamePath va va'

theorem Mm.Inv.of_reachable (h : m.Inv) (hreach : (mmSystem image).Reachable m m') : m'.Inv :=
  hreach.induction Mm.Inv (fun _ _ h hop => h.step image hop) h

/-- The pages of an accepted id lie in the window. -/
theorem stackPage_mem_window (layout : TaskLayout) {id : Word} (hid : id ≠ 0)
    (hmax : id.toNat ≤ taskMaxTasks) (page : Fin 4) :
    stackPage (taskStackVirtualFor layout id) page ∈ layout.window := by
  have hslot := stackSlot layout hid hmax
  have hpage := page.isLt
  have hva := toNat_stackPage (taskStackVirtualFor layout id) (by omega) page
  exact ⟨by omega, by omega⟩

section Client

variable (image : KernelImage) {root : Word} {window : Set Word} {m : Mm}

/-- Translations and holdings decide whether a window is owned. -/
theorem WindowOwned.of_eq (h : WindowOwned root window m)
    (hlookup : ∀ va, m'.vmm.paging.tables.lookup root va = m.vmm.paging.tables.lookup root va)
    (hheld : ∀ a ∈ m.held, a ∈ m'.held) : WindowOwned root window m' where
  held := by
    intro va entry hva hleaf
    rw [hlookup] at hleaf
    exact hheld _ (h.held hva hleaf)
  inj := by
    intro va va' entry entry' hva hva' hleaf hleaf'
    rw [hlookup] at hleaf hleaf'
    exact h.inj hva hva' hleaf hleaf'

/-- **The mapping loop, as operations of a client.** -/
theorem mapStackPages_reachable (base : Word) (pages : List (Fin 4)) (hinv : m.Inv)
    (hown : WindowOwned root window m) (recorded : Fin 4 → Word) :
    ∃ m', (mmSystem image).Reachable m m' ∧ WindowOwned root window m' ∧
      m'.vmm = { m.vmm with
        paging := (mapStackPages root base pages m.vmm.paging recorded).2.1 } := by
  induction pages generalizing m recorded with
  | nil => exact ⟨m, .refl _ m, hown, rfl⟩
  | cons page pages ih =>
      rw [mapStackPages]
      rcases pmmAllocFrame_cases m.vmm.paging.pmm with ⟨heq, -⟩ | ⟨f, hfree, -, hinstalled, heq⟩
      · simp only [heq, if_true]
        exact ⟨m, .refl _ m, hown, rfl⟩
      have hrel := hinv.paging.sound.releases_reserve hinstalled hfree
      simp only [heq, if_neg hrel.nonzero]
      set a := frameAddress f with ha
      set s₁ : Paging := { m.vmm.paging with pmm := m.vmm.paging.pmm.reserve f } with hs₁
      -- nobody held the new frame
      have hnew : a ∉ m.held := by
        intro hmem
        have hbit := (hinv.held a hmem).2
        rw [frameOf_frameAddress (hinv.paging.sound.lt_of_free hfree), hfree.2.2] at hbit
        cases hbit
      have hstep₁ : m.step image .allocFrame = ⟨{ m.vmm with paging := s₁ }, a :: m.held⟩ := by
        simp only [Mm.step, heq, if_neg hrel.nonzero]
        rfl
      have hreach₁ : (mmSystem image).Reachable m ⟨{ m.vmm with paging := s₁ }, a :: m.held⟩ := by
        rw [← hstep₁]
        exact (TransitionSystem.Reachable.refl (mmSystem image) m).tail .allocFrame trivial
      have hreach₂ := hreach₁.tail (.mapPage root (stackPage base page) a vmmWritable) trivial
      rcases vmmMapPage_cases (hinv.paging.reserve f) root (stackPage base page) a vmmWritable with
        ⟨s₂, hmap, hinv₂, hsame⟩ | ⟨s₂, hmap, hinv₂, hmaps⟩
      · -- the page cannot be mapped, and the frame goes back
        have hstep₂ : (mmSystem image).step ⟨{ m.vmm with paging := s₁ }, a :: m.held⟩
            (.mapPage root (stackPage base page) a vmmWritable) =
              ⟨{ m.vmm with paging := s₂ }, a :: m.held⟩ := by
          simp only [mmSystem, Mm.step, Mm.setPaging, hs₁, hmap]
        rw [hstep₂] at hreach₂
        have hreach₃ := hreach₂.tail (.freeFrame a) List.mem_cons_self
        refine ⟨_, hreach₃, hown.of_eq (fun va => ?_) (fun b hb => ?_), by rw [hmap]; rfl⟩
        · exact congrArg (fun T : Tables => T.lookup root va) hsame.tables
        · refine List.mem_filter.mpr ⟨List.mem_cons_of_mem a hb, ?_⟩
          simpa using fun hba : b = a => hnew (hba ▸ hb)
      · have hstep₂ : (mmSystem image).step ⟨{ m.vmm with paging := s₁ }, a :: m.held⟩
            (.mapPage root (stackPage base page) a vmmWritable) =
              ⟨{ m.vmm with paging := s₂ }, a :: m.held⟩ := by
          simp only [mmSystem, Mm.step, Mm.setPaging, hs₁, hmap]
        rw [hstep₂] at hreach₂
        obtain ⟨hbefore, hafter⟩ := hmaps.lookup (hinv.paging.reserve f)
        have haddr : entryAddress (leafEntry a vmmWritable) = a := by
          rw [entryAddress_leafEntry]
          exact hrel.frameAligned (hinv.paging.sound.reserve f)
        have hold : ∀ {va entry}, va ∈ window →
            m.vmm.paging.tables.lookup root va = some (0, entry) → entryAddress entry ≠ a := by
          intro va entry hva hleaf hentry
          exact hnew (hentry ▸ hown.held hva hleaf)
        have hown₂ : WindowOwned root window ⟨{ m.vmm with paging := s₂ }, a :: m.held⟩ := by
          refine ⟨fun {va entry} hva hleaf => ?_,
            fun {va va' entry entry'} hva hva' hleaf hleaf' hentry => ?_⟩
          · rw [hafter] at hleaf
            split_ifs at hleaf with hpath
            · obtain rfl : leafEntry a vmmWritable = entry := by simpa using hleaf
              rw [haddr]
              exact List.mem_cons_self
            · exact List.mem_cons_of_mem a (hown.held hva hleaf)
          · rw [hafter] at hleaf hleaf'
            split_ifs at hleaf hleaf' with hpath hpath' hpath'
            · exact hpath.trans hpath'.symm
            · obtain rfl : leafEntry a vmmWritable = entry := by simpa using hleaf
              exact absurd (hentry.symm.trans haddr) (hold hva' hleaf')
            · obtain rfl : leafEntry a vmmWritable = entry' := by simpa using hleaf'
              exact absurd (hentry.trans haddr) (hold hva hleaf)
            · exact hown.inj hva hva' hleaf hleaf' hentry
        obtain ⟨m', hreach, hown', hvmm⟩ :=
          ih (hinv.of_reachable hreach₂) hown₂ (Function.update recorded page a)
        refine ⟨m', hreach₂.trans hreach, hown', ?_⟩
        rw [hmap]
        exact hvmm

/-- **One turn of the rollback, as operations of a client.** -/
theorem rollbackStackPage_reachable (hinv : m.Inv) (hown : WindowOwned root window m) {page : Fin 4}
    (hpage : stackPage base page ∈ window) :
    ∃ m', (mmSystem image).Reachable m m' ∧ WindowOwned root window m' ∧
      m'.vmm = { m.vmm with paging := rollbackStackPage root base m.vmm.paging page } := by
  rcases vmmUnmapPage_cases hinv.paging.wf root (stackPage base page) with
    ⟨heq, -⟩ | ⟨_, pt, t, -, -, -, -, -, -, -, hleaf, heq, hcleared⟩
  · refine ⟨m, .refl _ m, hown, ?_⟩
    simp only [rollbackStackPage, heq]
  set physical := entryAddress (t.entries (ptIndex (stackPage base page))) with hphysical
  set s₁ := m.vmm.paging.write pt (ptIndex (stackPage base page)) 0 with hs₁
  have hreach₁ : (mmSystem image).Reachable m ⟨{ m.vmm with paging := s₁ }, m.held⟩ := by
    have hstep : (mmSystem image).step m (.unmapPage root (stackPage base page)) =
        ⟨{ m.vmm with paging := s₁ }, m.held⟩ := by
      simp only [mmSystem, Mm.step, Mm.setPaging, heq]
    rw [← hstep]
    exact (TransitionSystem.Reachable.refl _ m).tail
      (MmOp.unmapPage root (stackPage base page)) trivial
  have hreach₂ := hreach₁.tail (.freeFrame physical) (hown.held hpage hleaf)
  refine ⟨_, hreach₂, ⟨fun {va entry} hva hleaf' => ?_,
    fun {va va' entry entry'} hva hva' h₁ h₂ hentry => ?_⟩, ?_⟩
  · -- another page, hence another frame
    have hlookup := hcleared va
    rw [show s₁.tables.lookup root va = some (0, entry) from hleaf'] at hlookup
    split_ifs at hlookup with hpath
    refine List.mem_filter.mpr ⟨hown.held hva hlookup.symm, ?_⟩
    simpa using fun hsame : entryAddress entry = physical =>
      hpath (hown.inj hva hpage hlookup.symm hleaf hsame)
  · have hlookup := hcleared va
    have hlookup' := hcleared va'
    rw [show s₁.tables.lookup root va = some (0, entry) from h₁] at hlookup
    rw [show s₁.tables.lookup root va' = some (0, entry') from h₂] at hlookup'
    split_ifs at hlookup hlookup'
    exact hown.inj hva hva' hlookup.symm hlookup'.symm hentry
  · simp only [rollbackStackPage, heq]
    rfl

theorem rollbackStackPages_reachable (pages : List (Fin 4)) (hinv : m.Inv)
    (hown : WindowOwned root window m) (hpages : ∀ page, stackPage base page ∈ window) :
    ∃ m', (mmSystem image).Reachable m m' ∧ WindowOwned root window m' ∧
      m'.vmm = { m.vmm with
        paging := pages.foldl (rollbackStackPage root base) m.vmm.paging } := by
  induction pages generalizing m with
  | nil => exact ⟨m, .refl _ m, hown, rfl⟩
  | cons page pages ih =>
      obtain ⟨m₁, hreach₁, hown₁, hvmm₁⟩ :=
        rollbackStackPage_reachable image hinv hown (hpages page)
      obtain ⟨m₂, hreach₂, hown₂, hvmm₂⟩ := ih (hinv.of_reachable hreach₁) hown₁
      refine ⟨m₂, hreach₁.trans hreach₂, hown₂, ?_⟩
      rw [hvmm₂, hvmm₁]
      rfl

/-- Stores into a frame a client holds. -/
theorem stores_reachable (words : List (Fin 512 × Word)) (hinv : m.Inv)
    (hown : WindowOwned root window m) {a : Word} (ha : a ∈ m.held) :
    ∃ m', (mmSystem image).Reachable m m' ∧ WindowOwned root window m' ∧
      m'.vmm = { m.vmm with
        paging := words.foldl (fun s w => s.write a w.1 w.2) m.vmm.paging } := by
  induction words generalizing m with
  | nil => exact ⟨m, .refl _ m, hown, rfl⟩
  | cons word words ih =>
      have hreach : (mmSystem image).Reachable m
        (m.setPaging (m.vmm.paging.write a word.1 word.2)) :=
        (TransitionSystem.Reachable.refl _ m).tail (MmOp.store a word.1 word.2) ha
      have htables := (hinv.held a ha).1.tables_write word.1 word.2
      have hown₁ : WindowOwned root window (m.setPaging (m.vmm.paging.write a word.1 word.2)) :=
        hown.of_eq (fun va => congrArg (fun T : Tables => T.lookup root va) htables) fun _ hb => hb
      obtain ⟨m', hreach', hown', hvmm⟩ := ih (hinv.of_reachable hreach) hown₁ ha
      exact ⟨m', hreach.trans hreach', hown', hvmm⟩

end Client

/-- **`task_create` is a client of the memory subsystem.**  Whatever the arguments and
the outcome, it leads from one reachable state to another. -/
theorem taskCreate_reachable {boot : MmBoot} (hm : (mmSystem image).Reachable boot.start m)
    (layout : TaskLayout) (hown : WindowOwned (vmmGetPml4 m.vmm) layout.window m)
    (taskAddress : Word) (task : Task) (id addressSpace entry argument : Word) :
    ∃ m', (mmSystem image).Reachable boot.start m' ∧
      WindowOwned (vmmGetPml4 m'.vmm) layout.window m' ∧
      m'.vmm = (taskCreate layout taskAddress m.vmm task id addressSpace entry argument).2.2 := by
  have hinv : m.Inv := boot.inv_start.of_reachable hm
  rcases taskCreate_outcome layout taskAddress m.vmm task argument id addressSpace entry with
    ⟨-, task', heq, -⟩ | ⟨haccepts, hspace, complete, s', frames, hloop, hresult⟩
  · exact ⟨m, hm, hown, by rw [heq]⟩
  obtain ⟨hid, hmax, -⟩ := taskCreateAccepts_iff.mp haccepts
  have hpages := stackPage_mem_window layout hid hmax
  obtain ⟨-, staged, hstaged, hframe⟩ := taskCreate_stages layout hinv.paging haccepts hloop
  rw [← hspace] at hown
  obtain ⟨m₁, hreach₁, hown₁, hvmm₁⟩ := mapStackPages_reachable image
    (taskStackVirtualFor layout id) stackPages hinv hown fun _ => 0
  rw [hloop] at hvmm₁
  have hinv₁ := hinv.of_reachable hreach₁
  have hdone : ∀ {m₂ : Mm} {s : Paging}, (mmSystem image).Reachable m₁ m₂ →
      WindowOwned addressSpace layout.window m₂ → m₂.vmm = { m.vmm with paging := s } →
      (mmSystem image).Reachable boot.start m₂ ∧ WindowOwned (vmmGetPml4 m₂.vmm)
      layout.window m₂ := by
    intro m₂ s hreach₂ hown₂ hvmm
    refine ⟨hm.trans (hreach₁.trans hreach₂), ?_⟩
    rw [hvmm]
    exact hspace ▸ hown₂
  rcases hresult with ⟨rfl, heq⟩ | ⟨rfl, heq⟩
  · obtain ⟨m₂, hreach₂, hown₂, hvmm₂⟩ :=
      rollbackStackPages_reachable image stackPages hinv₁ hown₁ hpages
    rw [hvmm₁] at hvmm₂
    obtain ⟨hreach, hown'⟩ := hdone hreach₂ hown₂ hvmm₂
    exact ⟨m₂, hreach, hown', by rw [heq, hvmm₂]; rfl⟩
  · -- the last page of the new stack is mapped to a frame the client holds
    have hthree : frames 3 ∈ m₁.held := by
      have haddr : entryAddress (leafEntry (frames 3) vmmWritable) = frames 3 := by
        rw [entryAddress_leafEntry]
        exact (hstaged.owned (hframe rfl 3)).2.1.frameAligned hstaged.inv.sound
      rw [← haddr]
      refine hown₁.held (hpages 3) ?_
      rw [hvmm₁]
      exact (hstaged.mapped (hframe rfl 3)).2
    obtain ⟨m₂, hreach₂, hown₂, hvmm₂⟩ := stores_reachable image
      (firstRunStores layout taskAddress (taskStackVirtualFor layout id + 0x4000))
      hinv₁ hown₁ hthree
    rw [hvmm₁] at hvmm₂
    obtain ⟨hreach, hown'⟩ := hdone hreach₂ hown₂ hvmm₂
    exact ⟨m₂, hreach, hown', by rw [heq, hvmm₂]⟩

/-- The window of the task stacks starts out empty. -/
theorem windowOwned_start (boot : MmBoot) (window : Set Word) :
    WindowOwned (vmmGetPml4 boot.start.vmm) window boot.start where
  held := by
    intro va entry _ hleaf
    rw [boot.lookup_start] at hleaf
    cases hleaf
  inj := by
    intro va va' entry entry' _ _ hleaf
    rw [boot.lookup_start] at hleaf
    cases hleaf

/-! ## Failed calls -/

/-- **When a failed `task_create` disturbs nobody.**  In every reachable state and for
every call that fails: exactly when the call is refused at once or no page of the
stack slot of its id was mapped. -/
theorem taskCreate_undisturbed_iff (image : KernelImage) (boot : MmBoot) {m : Mm}
    (hm : (mmSystem image).Reachable boot.start m) (layout : TaskLayout)
    (taskAddress : Word) (task : Task) (id addressSpace entry argument : Word)
    (hfail : (taskCreate layout taskAddress m.vmm task id addressSpace entry argument).1 ≠ 0) :
    Undisturbed (vmmGetPml4 m.vmm) m.vmm.paging
        (taskCreate layout taskAddress m.vmm task id addressSpace entry argument).2.2.paging ↔
      taskCreateAccepts id addressSpace entry = false ∨ addressSpace ≠ vmmGetPml4 m.vmm ∨
        SlotClear (vmmGetPml4 m.vmm) (taskStackVirtualFor layout id) m.vmm.paging := by
  have hinv : m.Inv := boot.inv_start.of_reachable hm
  rw [← or_assoc]
  rcases taskCreate_outcome layout taskAddress m.vmm task argument id addressSpace entry with
    ⟨hrefused, task', heq, -⟩ | ⟨haccepts, hspace, complete, s', frames, hloop,
      ⟨rfl, heq⟩ | ⟨-, heq⟩⟩
  · rw [heq]
    exact iff_of_true (Undisturbed.refl _ _) (.inl hrefused)
  · obtain ⟨hid, hmax, -⟩ := taskCreateAccepts_iff.mp haccepts
    have hrefused : ¬ (taskCreateAccepts id addressSpace entry = false ∨
        addressSpace ≠ vmmGetPml4 m.vmm) := by
      rw [haccepts]
      exact not_or.mpr ⟨nofun, not_not.mpr hspace⟩
    rw [or_iff_right hrefused, heq, ← hspace]
    exact undisturbed_rollback_iff (stackWindow_taskStackVirtualFor layout hid hmax)
      hinv.paging hloop
  · rw [heq] at hfail
    exact absurd rfl hfail

/-- Task stacks 2 MiB above the kernel. -/
def demoLayout : TaskLayout where
  stackStart := 0xFFFFFFFF80200000
  trampoline := 0xFFFFFFFF80000400
  aligned := by decide
  high := by decide
  fits := by decide

/-- Running out of frames for page tables disturbs nobody. -/
theorem taskCreate_undisturbed_iff_small :
    Undisturbed 0x2000 smallBoot.start.vmm.paging
      (taskCreate demoLayout 0x9000 smallBoot.start.vmm {} 1 0x2000 0x400 0).2.2.paging :=
  (taskCreate_undisturbed_iff demoImage smallBoot (.refl _ smallBoot.start) demoLayout 0x9000 {} 1
    0x2000 0x400 0 (by decide +kernel)).mpr
    (.inr (.inr fun page entry hleaf => by
      rw [smallBoot.lookup_start] at hleaf
      cases hleaf))

/-- The address spaces after a first task has been created. -/
def demoCreated : Vmm := (taskCreate demoLayout 0x9000 demoBoot.start.vmm {} 1 0x2000 0x400 0).2.2

/-- A second task with the id of a live one: the call fails, and a page of the live
task's stack is no longer mapped. -/
theorem duplicate_id_unmaps_stack :
    ∃ m, (mmSystem demoImage).Reachable demoBoot.start m ∧ m.vmm = demoCreated ∧
      (taskCreate demoLayout 0x9000 demoBoot.start.vmm {} 1 0x2000 0x400 0).1 = 0 ∧
      (taskCreate demoLayout 0xA000 m.vmm {} 1 0x2000 0x400 0).1 = -1 ∧
      ¬ Undisturbed (vmmGetPml4 m.vmm) m.vmm.paging
        (taskCreate demoLayout 0xA000 m.vmm {} 1 0x2000 0x400 0).2.2.paging := by
  have hfirst : (taskCreate demoLayout 0x9000 demoBoot.start.vmm {} 1 0x2000 0x400 0).1 = 0 := by
    decide +kernel
  have hroot : vmmGetPml4 demoBoot.start.vmm = 0x2000 := by decide +kernel
  have hroot' : vmmGetPml4 demoCreated = 0x2000 := by decide +kernel
  obtain ⟨m, hreach, -, hvmm⟩ := taskCreate_reachable (.refl (mmSystem demoImage) demoBoot.start)
    demoLayout (windowOwned_start demoBoot _) 0x9000 {} 1 0x2000 0x400 0
  rw [← demoCreated] at hvmm
  have hinv := (demoBoot.inv_start.of_reachable hreach).paging
  have haccepts : taskCreateAccepts 1 0x2000 0x400 = true := by decide
  have hspace : 0x2000 = vmmGetPml4 m.vmm := by rw [hvmm, hroot']
  obtain ⟨-, frame, hleaf⟩ := taskCreate_occupies demoLayout 0x9000 {} 0 demoBoot.inv_start.paging
    haccepts hfirst 0
  rw [← demoCreated, ← hvmm] at hleaf
  obtain ⟨hcode, hgone⟩ := taskCreate_of_occupied demoLayout 0xA000 {} 0 hinv haccepts hspace hleaf
  refine ⟨m, hreach, hvmm, hfirst, hcode, fun hundisturbed => ?_⟩
  have hkept := congrArg Option.isSome (hundisturbed.mapped _ _ (by
    rw [← hspace]
    exact vmmTranslate_of_page hleaf))
  rw [← hspace, vmmTranslate_isSome, hgone] at hkept
  cases hkept

end Batos
