import Batos.Sched.Client
import Batos.Sched.Scheduler

/-!
# The first entry into a task

`task_create` stages the first continuation of a task twice: as a cooperative context, and as
an interrupt frame on the new stack.  From the top of the stack downwards there are the pointer
to the task (at -16), a return slot (at -24), and the frame, which ends where the return slot
begins.

The context is entered by a jump.  The frame is entered by `iretq`, after the registers have
been popped (`switch.asm`, `preempt.asm`).  In 64-bit mode `iretq` pops five words, always: the
stack pointer and the stack segment follow the flags.  When an interrupt builds a frame the CPU
pushes these two as well; `struct irq_frame` ends with the flags, and
`x86_64_preempt_prepare_first_run` stores nothing behind them.  So `iretq` takes the return slot
for the stack pointer and the pointer to the task for the stack segment
(`firstRunFrame_unusable`).
-/

namespace Batos

open BitVec

variable {stackTop frame taskAddress : Word} {i : ℕ} {layout : TaskLayout}

/-! ## The machine -/

/-- The general registers apart from the stack pointer. -/
inductive Register
  | rax | rbx | rcx | rdx | rsi | rdi | rbp
  | r8 | r9 | r10 | r11 | r12 | r13 | r14 | r15
  deriving DecidableEq, Repr

/-- The registers of the CPU that an entry sets. -/
structure Cpu where
  registers : Register → Word
  rsp : Word
  rip : Word
  cs : Word
  rflags : Word
  ss : Word

/-- `GDT_KERNEL_DATA`. -/
def gdtKernelData : Word := 0x10

namespace Cpu

/-- The interrupt flag. -/
def interruptsEnabled (cpu : Cpu) : Bool := cpu.rflags.getLsbD 9

/-- Set a general register. -/
def setRegister (cpu : Cpu) (register : Register) (value : Word) : Cpu :=
  { cpu with registers := Function.update cpu.registers register value }

/-- `pop` for each of the registers; `none` stands for a fault. -/
def popRegisters (load : Word → Option Word) : List Register → Cpu → Option Cpu
  | [], cpu => some cpu
  | register :: registers, cpu =>
      match load cpu.rsp with
      | none => none
      | some value =>
          popRegisters load registers { cpu.setRegister register value with rsp := cpu.rsp + 8 }

/-- `iretq` in 64-bit mode.  A selector is the low half of the low half of its word. -/
def iretq (load : Word → Option Word) (cpu : Cpu) : Option Cpu :=
  match load cpu.rsp, load (cpu.rsp + 8), load (cpu.rsp + 16), load (cpu.rsp + 24),
      load (cpu.rsp + 32) with
  | some rip, some cs, some rflags, some rsp, some ss =>
      some { cpu with
        rip := rip
        cs := cs &&& 0xFFFF
        rflags := rflags
        rsp := rsp
        ss := ss &&& 0xFFFF }
  | _, _, _, _, _ => none

/-- The cooperative continuation the switch primitives save; `resume` is their local label. -/
def saved (cpu : Cpu) (resume : Word) : Context where
  rbx := cpu.registers .rbx
  rbp := cpu.registers .rbp
  r12 := cpu.registers .r12
  r13 := cpu.registers .r13
  r14 := cpu.registers .r14
  r15 := cpu.registers .r15
  rsp := cpu.rsp
  rip := resume

end Cpu

/-- The order in which the registers stand in a `struct irq_frame`. -/
def frameRegisters : List Register :=
  [.r15, .r14, .r13, .r12, .r11, .r10, .r9, .r8, .rdi, .rsi, .rbp, .rdx, .rcx, .rbx, .rax]

/-- `x86_64_preempt_restore_and_iret`. -/
def preemptRestoreAndIret (load : Word → Option Word) (cpu : Cpu) (frame : Word) : Option Cpu :=
  match Cpu.popRegisters load frameRegisters { cpu with rsp := frame } with
  | none => none
  | some cpu =>
      -- the vector is skipped
      Cpu.iretq load { cpu with rsp := cpu.rsp + 8 }

/-- `x86_64_context_switch_to_interrupt`: what it saves for the current task, and how it enters
the frame. -/
def contextSwitchToInterrupt (load : Word → Option Word) (cpu : Cpu) (resume frame : Word) :
    Context × Option Cpu :=
  (cpu.saved resume,
    preemptRestoreAndIret load (cpu.setRegister .rax resume) frame)

/-- `x86_64_context_switch_and_enable_interrupts`. -/
def contextSwitchAndEnableInterrupts (cpu : Cpu) (resume : Word) (next : Context) : Context × Cpu :=
  (cpu.saved resume,
    { (((((((cpu.setRegister .rbx next.rbx).setRegister .rbp next.rbp).setRegister .r12
        next.r12).setRegister .r13 next.r13).setRegister .r14 next.r14).setRegister .r15
          next.r15).setRegister .rax next.rip) with
      rsp := next.rsp
      rflags := cpu.rflags ||| 0x200
      rip := next.rip })

/-- A load of an aligned word through the page tables of an address space. -/
def loadWord (s : Paging) (root address : Word) : Option Word :=
  (vmmTranslate s root address).map fun physical =>
    s.memory (entryAddress physical) (pageIndex 3 physical)

/-- The state in which `x86_64_task_bootstrap_trampoline` expects the CPU. -/
structure Cpu.AtBootstrap (cpu : Cpu) (layout : TaskLayout) (load : Word → Option Word)
    (stackTop taskAddress : Word) : Prop where
  rip : cpu.rip = layout.trampoline
  rsp : cpu.rsp = stackTop - 24
  task : load (cpu.rsp + 8) = some taskAddress
  interrupts : cpu.interruptsEnabled = true
  segment : cpu.ss = gdtKernelData

/-! ## The words on the stack -/

section Stores

variable {a : Word}

/-- Stores into one frame. -/
theorem memory_stores (words : List (Fin 512 × Word)) (s : Paging) :
    (words.foldl (fun s w => s.write a w.1 w.2) s).memory a =
      words.foldl (fun contents w => Function.update contents w.1 w.2) (s.memory a) := by
  induction words generalizing s with
  | nil => rfl
  | cons word words ih =>
      rw [List.foldl_cons, ih, List.foldl_cons]
      congr 1
      exact Function.update_self _ _ _

/-- The slots of the words from the frame upwards. -/
theorem pageIndex_firstRun (haligned : stackTop.toNat % 4096 = 0) (hpos : 4096 ≤ stackTop.toNat)
    (hi : i < 22) :
    (stackTop - 24 - 152 + 8 * BitVec.ofNat 64 i).toNat = stackTop.toNat - 176 + 8 * i ∧
      pageIndex 3 (stackTop - 24 - 152 + 8 * BitVec.ofNat 64 i) = Fin.ofNat 512 (490 + i) := by
  have hnat : (stackTop - 24 - 152 + 8 * BitVec.ofNat 64 i).toNat =
      stackTop.toNat - 176 + 8 * i := by
    have hlt := stackTop.isLt
    rw [toNat_add, toNat_sub, toNat_sub, toNat_mul, toNat_ofNat]
    change ((2 ^ 64 - 152 + (2 ^ 64 - 24 + stackTop.toNat) % 2 ^ 64) % 2 ^ 64 +
      8 * (i % 2 ^ 64) % 2 ^ 64) % 2 ^ 64 = _
    omega
  refine ⟨hnat, Fin.ext ?_⟩
  rw [pageIndex_val, hnat]
  change (stackTop.toNat - 176 + 8 * i) / 8 % 512 = (490 + i) % 512
  omega

/-- The words that are left, from the frame upwards: the frame, the return slot, the pointer to
the task. -/
def firstRunWords (layout : TaskLayout) (taskAddress : Word) : List Word :=
  firstRunFrame layout ++ [0, taskAddress]

theorem firstRunStores_eq (layout : TaskLayout) (taskAddress : Word)
    (haligned : stackTop.toNat % 4096 = 0) (hpos : 4096 ≤ stackTop.toNat) :
    firstRunStores layout taskAddress stackTop =
      (509, 0) :: (510, taskAddress) ::
        (firstRunFrame layout).zipIdx.map fun word => (Fin.ofNat 512 (490 + word.2), word.1) := by
  have hslot : stackTop - 24 = stackTop - 24 - 152 + 8 * BitVec.ofNat 64 19 := by bv_omega
  have hpointer : stackTop - 24 + 8 = stackTop - 24 - 152 + 8 * BitVec.ofNat 64 20 := by bv_omega
  have hslot' : pageIndex 3 (stackTop - 24) = 509 := by
    rw [hslot, (pageIndex_firstRun haligned hpos (show 19 < 22 by decide)).2]
    rfl
  have hpointer' : pageIndex 3 (stackTop - 24 + 8) = 510 := by
    rw [hpointer, (pageIndex_firstRun haligned hpos (show 20 < 22 by decide)).2]
    rfl
  rw [firstRunStores, hslot', hpointer']
  congr 2
  refine List.map_congr_left fun word hword => ?_
  have hlt : word.2 < 19 := (List.snd_lt_of_mem_zipIdx hword).trans_eq rfl
  rw [(pageIndex_firstRun haligned hpos (hlt.trans (by decide))).2]

theorem firstRunStores_contents (layout : TaskLayout) (taskAddress : Word)
    (haligned : stackTop.toNat % 4096 = 0) (hpos : 4096 ≤ stackTop.toNat)
    (contents : Fin 512 → Word) (hi : i < 21) :
    some ((firstRunStores layout taskAddress stackTop).foldl
        (fun contents w => Function.update contents w.1 w.2) contents (Fin.ofNat 512 (490 + i))) =
      (firstRunWords layout taskAddress)[i]? := by
  rw [firstRunStores_eq layout taskAddress haligned hpos]
  interval_cases i <;> rfl

end Stores

/-! ## Loads -/

section Loads

variable {p va : Word}

theorem entryAddress_or_offset (h : FrameAligned p) : entryAddress (p ||| (va &&& 0xFFF)) = p := by
  have hoffset : va &&& 0xFFF &&& addressMask = 0#64 := by
    rw [BitVec.and_assoc, show (0xFFF : Word) &&& addressMask = 0#64 by decide, and_zero]
  rw [entryAddress, and_or_distrib_right, hoffset, or_zero]
  exact h

/-- The offset decides which word of a frame it is. -/
theorem pageIndex_or_offset (h : FrameAligned p) :
    pageIndex 3 (p ||| (va &&& 0xFFF)) = pageIndex 3 va := by
  have hlow : p &&& 0xFFF = 0 := by
    rw [← h, entryAddress, BitVec.and_assoc, show addressMask &&& 0xFFF = 0#64 by decide, and_zero]
    rfl
  have hlt : (va &&& 0xFFF).toNat < 4096 := by
    rw [toNat_and_pageMask]
    exact Nat.mod_lt _ (by decide)
  obtain ⟨-, hoffset, hor⟩ := toNat_add_offset hlow hlt
  rw [hor] at hoffset
  have hmod := congrArg BitVec.toNat hoffset
  rw [toNat_and_pageMask, toNat_and_pageMask] at hmod
  apply Fin.ext
  rw [pageIndex_val, pageIndex_val]
  change _ / 8 % 512 = _ / 8 % 512
  omega

/-- A load from a page that is mapped to a frame. -/
theorem loadWord_of_page {s : Paging} {root flags : Word}
    (hleaf : s.tables.lookup root va = some (0, leafEntry frame flags))
    (hframe : FrameAligned frame) :
    loadWord s root va = some (s.memory frame (pageIndex 3 va)) := by
  have haddress : entryAddress (leafEntry frame flags) = frame := by
    rw [entryAddress_leafEntry]
    exact hframe
  rw [loadWord, vmmTranslate_of_page hleaf, haddress, Option.map_some,
    entryAddress_or_offset hframe, pageIndex_or_offset hframe]

end Loads

section Created

variable (layout : TaskLayout) (taskAddress : Word) {v : Vmm} (task : Task)
  {id addressSpace entry : Word} (argument : Word)

/-- **A task that was created has both continuations**, and the words of the frame and the two
above it are those that were staged. -/
theorem taskCreate_staged (h : v.paging.Inv ∅)
    (hok : (taskCreate layout taskAddress v task id addressSpace entry argument).1 = 0) :
    taskCreateAccepts id addressSpace entry = true ∧
      ∃ frames, (taskCreate layout taskAddress v task id addressSpace entry argument).2.1 =
          freshTask layout id addressSpace entry argument frames ∧
        ∀ i < 21, loadWord (taskCreate layout taskAddress v task id addressSpace entry
            argument).2.2.paging addressSpace
              (taskStackVirtualFor layout id + 0x4000 - 24 - 152 + 8 * BitVec.ofNat 64 i) =
          (firstRunWords layout taskAddress)[i]? := by
  rcases taskCreate_outcome layout taskAddress v task argument id addressSpace entry with
    ⟨-, task', heq, -⟩ | ⟨haccepts, -, complete, s', frames, hloop, ⟨-, heq⟩ | ⟨rfl, heq⟩⟩
  · rw [heq] at hok
    exact absurd hok (by decide : (-1 : ℤ) ≠ 0)
  · rw [heq] at hok
    exact absurd hok (by decide : (-1 : ℤ) ≠ 0)
  obtain ⟨-, staged, hstaged, hframe⟩ := taskCreate_stages layout h haccepts hloop
  obtain ⟨hid, hmax, -⟩ := taskCreateAccepts_iff.mp haccepts
  have hslot := stackSlot layout hid hmax
  have howned := hstaged.owned (hframe rfl 3)
  have htop : (taskStackVirtualFor layout id + 0x4000).toNat =
      (taskStackVirtualFor layout id).toNat + 0x4000 := by
    rw [toNat_add]
    change (_ + 16384) % 2 ^ 64 = _
    omega
  refine ⟨haccepts, frames, by rw [heq], fun i hi => ?_⟩
  have htopAligned : (taskStackVirtualFor layout id + 0x4000).toNat % 4096 = 0 := by omega
  have htopLow : 4096 ≤ (taskStackVirtualFor layout id + 0x4000).toNat := by omega
  obtain ⟨hnat, hindex⟩ := pageIndex_firstRun htopAligned htopLow (show i < 22 by omega)
  -- the words are on the last page of the stack
  have hpage : (taskStackVirtualFor layout id + 0x4000 - 24 - 152 + 8 * BitVec.ofNat 64 i).toNat /
      4096 = (stackPage (taskStackVirtualFor layout id) 3).toNat / 4096 := by
    have hlast := toNat_stackPage (taskStackVirtualFor layout id) (by omega) 3
    change _ = _ + 3 * 4096 at hlast
    omega
  rw [heq]
  dsimp only
  have hleaf := (hstaged.mapped (hframe rfl 3)).2
  rw [← (Tables.samePath_of_page hpage).lookup, ← tables_stores _ howned.1] at hleaf
  rw [loadWord_of_page hleaf (howned.2.1.frameAligned hstaged.inv.sound), hindex, memory_stores]
  exact firstRunStores_contents layout taskAddress htopAligned htopLow _ hi

end Created

/-! ## Entering the task -/

section Entry

variable {load : Word → Option Word}

/-- Registers are popped as long as there are words. -/
theorem Cpu.popRegisters_eq (registers : List Register) (cpu : Cpu)
    (h : ∀ i < registers.length, (load (cpu.rsp + 8 * BitVec.ofNat 64 i)).isSome = true) :
    ∃ values, Cpu.popRegisters load registers cpu =
      some { cpu with
        registers := values, rsp := cpu.rsp + 8 * BitVec.ofNat 64 registers.length } := by
  induction registers generalizing cpu with
  | nil =>
      refine ⟨cpu.registers, ?_⟩
      rw [List.length_nil, show (8 : Word) * BitVec.ofNat 64 0 = 0#64 from rfl, BitVec.add_zero]
      rfl
  | cons register registers ih =>
      have hfirst := h 0 (Nat.zero_lt_succ _)
      rw [show (8 : Word) * BitVec.ofNat 64 0 = 0#64 from rfl, BitVec.add_zero] at hfirst
      obtain ⟨value, hvalue⟩ := Option.isSome_iff_exists.mp hfirst
      have hshift : ∀ i : ℕ, cpu.rsp + 8 + 8 * BitVec.ofNat 64 i =
          cpu.rsp + 8 * BitVec.ofNat 64 (i + 1) := by
        intro i
        rw [ofNat_add]
        bv_omega
      obtain ⟨values, heq⟩ :=
        ih { cpu.setRegister register value with rsp := cpu.rsp + 8 } fun i hi => by
        show (load (cpu.rsp + 8 + 8 * BitVec.ofNat 64 i)).isSome = true
        rw [hshift]
        exact h (i + 1) (Nat.succ_lt_succ hi)
      refine ⟨values, ?_⟩
      rw [Cpu.popRegisters, hvalue]
      dsimp only
      rw [heq, List.length_cons]
      dsimp only
      rw [hshift]
      rfl

/-- **The synthetic frame, entered by `iretq`**: the words above it become the stack pointer and
the stack segment. -/
theorem preemptRestoreAndIret_firstRun
    (hwords : ∀ i < 21,
      load (frame + 8 * BitVec.ofNat 64 i) = (firstRunWords layout taskAddress)[i]?) (cpu : Cpu) :
    ∃ values, preemptRestoreAndIret load cpu frame =
      some ⟨values, 0, layout.trampoline, 0x08, 0x202, taskAddress &&& 0xFFFF⟩ := by
  have hregisters : ∀ i < frameRegisters.length, (load (frame + 8 * BitVec.ofNat 64 i)).isSome =
      true := by
    intro i hi
    have hi' : i < 15 := hi
    rw [hwords i (by omega)]
    interval_cases i <;> rfl
  obtain ⟨values, hpopped⟩ :=
    Cpu.popRegisters_eq frameRegisters { cpu with rsp := frame } hregisters
  have hat : ∀ i : ℕ, frame + 8 * BitVec.ofNat 64 15 + 8 + BitVec.ofNat 64 (8 * i) =
      frame + 8 * BitVec.ofNat 64 (16 + i) := by
    intro i
    rw [ofNat_add, ofNat_mul]
    bv_omega
  have hrip : load (frame + 8 * BitVec.ofNat 64 15 + 8) = some layout.trampoline := by
    rw [← BitVec.add_zero (frame + 8 * BitVec.ofNat 64 15 + 8)]
    exact (congrArg load (hat 0)).trans (hwords 16 (by decide))
  have hcs : load (frame + 8 * BitVec.ofNat 64 15 + 8 + 8) = some 0x08 :=
    (congrArg load (hat 1)).trans (hwords 17 (by decide))
  have hrflags : load (frame + 8 * BitVec.ofNat 64 15 + 8 + 16) = some 0x202 :=
    (congrArg load (hat 2)).trans (hwords 18 (by decide))
  have hrsp : load (frame + 8 * BitVec.ofNat 64 15 + 8 + 24) = some 0 :=
    (congrArg load (hat 3)).trans (hwords 19 (by decide))
  have hss : load (frame + 8 * BitVec.ofNat 64 15 + 8 + 32) = some taskAddress :=
    (congrArg load (hat 4)).trans (hwords 20 (by decide))
  refine ⟨values, ?_⟩
  rw [preemptRestoreAndIret, hpopped]
  show Cpu.iretq load { cpu with
    registers := values, rsp := frame + 8 * BitVec.ofNat 64 15 + 8 } = _
  rw [Cpu.iretq]
  dsimp only
  rw [hrip, hcs, hrflags, hrsp, hss]
  rfl

/-- The stack pointer of the frame entry is not that of the cooperative entry. -/
theorem not_atBootstrap_of_rsp {cpu : Cpu} (hrsp : cpu.rsp = 0)
    (haligned : stackTop.toNat % 4096 = 0) :
    ¬ cpu.AtBootstrap layout load stackTop taskAddress := by
  intro h
  have heq : stackTop - 24 = 0 := h.rsp.symm.trans hrsp
  have hnat := congrArg BitVec.toNat heq
  rw [toNat_sub] at hnat
  change (2 ^ 64 - 24 + stackTop.toNat) % 2 ^ 64 = 0 at hnat
  omega

end Entry

theorem toNat_freshTask_top {id addressSpace entry argument : Word} {frames : Fin 4 → Word}
    (haccepts : taskCreateAccepts id addressSpace entry = true) :
    (freshTask layout id addressSpace entry argument frames).kernelStackTop.toNat % 4096 = 0 := by
  obtain ⟨hid, hmax, -⟩ := taskCreateAccepts_iff.mp haccepts
  have hslot := stackSlot layout hid hmax
  show (taskStackVirtualFor layout id + 0x4000).toNat % 4096 = 0
  rw [toNat_add]
  change (_ + 16384) % 2 ^ 64 % 4096 = 0
  omega

/-- **The two first continuations of a task are not equivalent**, for no task.  The cooperative
entry leaves the CPU as the trampoline expects it.  The interrupt frame also leads to the
trampoline with interrupts enabled, but with a stack pointer of zero and a stack segment taken
from the address of the task object. -/
theorem firstRunFrame_unusable (image : KernelImage) (boot : MmBoot) {m : Mm}
    (hm : (mmSystem image).Reachable boot.start m) (layout : TaskLayout) (taskAddress : Word)
    (task : Task) (id addressSpace entry argument : Word) {created : Task} {v : Vmm}
    (hcreated : taskCreate layout taskAddress m.vmm task id addressSpace entry argument =
      (0, created, v))
    (cpu : Cpu) (resume : Word) :
    (cpu.ss = gdtKernelData →
        (contextSwitchAndEnableInterrupts cpu resume created.context).2.AtBootstrap layout
          (loadWord v.paging addressSpace) created.kernelStackTop taskAddress) ∧
      (∃ values, preemptRestoreAndIret (loadWord v.paging addressSpace) cpu
          created.preemptState.frameAddress =
        some ⟨values, 0, layout.trampoline, 0x08, 0x202, taskAddress &&& 0xFFFF⟩) ∧
      (∀ cpu', preemptRestoreAndIret (loadWord v.paging addressSpace) cpu
          created.preemptState.frameAddress = some cpu' →
        ¬ cpu'.AtBootstrap layout (loadWord v.paging addressSpace)
          created.kernelStackTop taskAddress) ∧
      ∀ cpu', (contextSwitchToInterrupt (loadWord v.paging addressSpace) cpu resume
          created.preemptState.frameAddress).2 = some cpu' →
        ¬ cpu'.AtBootstrap layout (loadWord v.paging addressSpace) created.kernelStackTop
          taskAddress := by
  have hinv : m.Inv := boot.inv_start.of_reachable hm
  obtain ⟨haccepts, frames, hfresh, hwords⟩ := taskCreate_staged layout taskAddress task argument
    hinv.paging (congrArg Prod.fst hcreated)
  rw [hcreated] at hfresh hwords
  obtain rfl : created = freshTask layout id addressSpace entry argument frames := hfresh
  have hfails : ∀ cpu : Cpu, ∀ cpu', preemptRestoreAndIret (loadWord v.paging addressSpace) cpu
      (freshTask layout id addressSpace entry argument frames).preemptState.frameAddress =
      some cpu' →
      ¬ cpu'.AtBootstrap layout (loadWord v.paging addressSpace)
        (freshTask layout id addressSpace entry argument frames).kernelStackTop taskAddress := by
    intro cpu cpu' heq
    obtain ⟨values, hentered⟩ := preemptRestoreAndIret_firstRun hwords cpu
    have hcpu := Option.some.inj (hentered.symm.trans heq)
    exact not_atBootstrap_of_rsp (hcpu ▸ rfl) (toNat_freshTask_top haccepts)
  refine ⟨fun hss => ⟨rfl, rfl, ?_, ?_, hss⟩, preemptRestoreAndIret_firstRun hwords cpu, hfails cpu,
    hfails (cpu.setRegister .rax resume)⟩
  · show loadWord v.paging addressSpace (taskStackVirtualFor layout id + 0x4000 - 24 + 8) = _
    have hpointer : taskStackVirtualFor layout id + 0x4000 - 24 + 8 =
        taskStackVirtualFor layout id + 0x4000 - 24 - 152 + 8 * BitVec.ofNat 64 20 := by bv_omega
    rw [hpointer]
    exact hwords 20 (by decide)
  · show (cpu.rflags ||| 0x200).getLsbD 9 = true
    rw [getLsbD_or]
    exact Bool.or_true _

theorem exists_eq_of_fst {α β : Type*} {result : ℤ × α × β} (h : result.1 = 0) :
    ∃ a b, result = (0, a, b) := by
  obtain ⟨code, a, b⟩ := result
  obtain rfl : code = 0 := h
  exact ⟨a, b, rfl⟩

/-- The CPU before the first task is entered. -/
def demoCpu : Cpu :=
  ⟨fun _ => 0, 0xFFFFFFFF80100000, 0xFFFFFFFF80000000, 0x08, 0x202, gdtKernelData⟩

/-- The first task of a small machine, entered through its frame. -/
theorem firstRunFrame_lost_stack :
    ∃ created v, taskCreate demoLayout 0x9000 demoBoot.start.vmm {} 1 0x2000 0x400 0 =
      (0, created, v) ∧
      created.context.rsp = 0xFFFFFFFF80204FE8 ∧
      ∃ cpu, preemptRestoreAndIret (loadWord v.paging 0x2000) demoCpu
          created.preemptState.frameAddress = some cpu ∧ cpu.rsp = 0 ∧ cpu.ss = 0x9000 := by
  have hok : (taskCreate demoLayout 0x9000 demoBoot.start.vmm {} 1 0x2000 0x400 0).1 = 0 := by
    decide +kernel
  obtain ⟨-, frames, hfresh, hwords⟩ := taskCreate_staged demoLayout 0x9000 {} 0
    demoBoot.inv_start.paging hok
  obtain ⟨created, v, hcreated⟩ := exists_eq_of_fst hok
  rw [hcreated] at hfresh hwords
  obtain rfl : created = freshTask demoLayout 1 0x2000 0x400 0 frames := hfresh
  obtain ⟨values, hentered⟩ := preemptRestoreAndIret_firstRun hwords demoCpu
  have hrsp : (freshTask demoLayout 1 0x2000 0x400 0 frames).context.rsp = 0xFFFFFFFF80204FE8 := by
    show taskStackVirtualFor demoLayout 1 + 0x4000 - 24 = _
    decide
  exact ⟨_, v, hcreated, hrsp, _, hentered, rfl, rfl⟩

theorem firstRunFrame_unusable_demo :
    ∃ created v, taskCreate demoLayout 0x9000 demoBoot.start.vmm {} 1 0x2000 0x400 0 =
      (0, created, v) ∧
      ∀ cpu', preemptRestoreAndIret (loadWord v.paging 0x2000) demoCpu
          created.preemptState.frameAddress = some cpu' →
        ¬ cpu'.AtBootstrap demoLayout (loadWord v.paging 0x2000) created.kernelStackTop 0x9000 := by
  have hok : (taskCreate demoLayout 0x9000 demoBoot.start.vmm {} 1 0x2000 0x400 0).1 = 0 := by
    decide +kernel
  obtain ⟨created, v, hcreated⟩ := exists_eq_of_fst hok
  exact ⟨created, v, hcreated, (firstRunFrame_unusable demoImage demoBoot (.refl _ demoBoot.start)
    demoLayout 0x9000 {} 1 0x2000 0x400 0 hcreated demoCpu 0).2.2.1⟩

end Batos
