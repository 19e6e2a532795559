import Batos.Lib.Bytes
import Batos.Lib.Run
import Batos.Sched.FirstRun

/-!
# Suspended tasks

The tasks share one CPU.  A task loses it in two ways.  An interrupt pushes the state of the CPU
on the stack of the task, the CPU its part and the entry stub (`lapic_timer_stub`, `irq_common`)
the rest; together they are a `struct irq_frame` with the two words behind it.  Or the task calls
a switch primitive, which stores the callee-saved registers, the stack pointer and the address of a
local label in the `struct x86_64_context` of the task; the return address of the call stays on the
stack.  Either way it gets the CPU back through the restoring half of a primitive: from a frame by
`x86_64_preempt_restore_and_iret`, from a context by `x86_64_preempt_restore_context_and_resume`.
Frames and contexts are bytes in memory, like everything else code can write to.

A run of the machine is an interleaving of code, of any task or handler, with suspensions and
resumptions.  Code may do what it likes apart from one thing: it leaves the bytes alone that the
suspended tasks go on from, which are a frame, or a context and a return address.  Then a task
that is interrupted finds the CPU, when it gets it back, as it lost it, to the last register
(`interrupted_task_resumes_exactly`).  To a task that gives the CPU away, the time without it is a
call that returns (`switched_task_returns`).

The primitives that switch from task to task are runs of these operations:
`x86_64_context_switch_and_enable_interrupts` and `x86_64_context_switch_to_interrupt` suspend one
task and resume the next, and the timer interrupt does so with the handler between the two.
-/

namespace Batos

open Function
open TransitionSystem (run_append run_cons)

/-! ## Primitives -/

/-- The words of a `struct x86_64_context`, in their order. -/
def Context.words (context : Context) : List Word :=
  [context.rbx, context.rbp, context.r12, context.r13, context.r14, context.r15, context.rsp,
    context.rip]

/-- The context at an address, as the restoring primitives read it. -/
def Context.load (memory : Bytes) (address : Word) : Context where
  rbx := memory.load address
  rbp := memory.load (address + 8)
  r12 := memory.load (address + 16)
  r13 := memory.load (address + 24)
  r14 := memory.load (address + 32)
  r15 := memory.load (address + 40)
  rsp := memory.load (address + 48)
  rip := memory.load (address + 56)

/-- A context is read as it was written. -/
theorem Context.load_of_holds {memory : Bytes} {address : Word} {context : Context}
    (h : memory.Holds address context.words) : Context.load memory address = context := by
  obtain ⟨hrbx, hrbp, hr12, hr13, hr14, hr15, hrsp, hrip, -⟩ := h
  rw [Context.load]
  simp only [BitVec.ofNat_eq_ofNat, BitVec.add_assoc, BitVec.reduceAdd] at *
  rw [hrbx, hrbp, hr12, hr13, hr14, hr15, hrsp, hrip]

/-- The saving half of a switch primitive leaves a context in memory. -/
theorem holds_saved (memory : Bytes) (cpu : Cpu) (resume address : Word) :
    (memory.storeWords address (cpu.saved resume).words).Holds address (cpu.saved resume).words :=
  Bytes.holds_storeWords (by show 8 ≤ 0x2000000000000000; decide)

/-- `x86_64_preempt_restore_context_and_resume`: instruction for instruction the restoring half of
`x86_64_context_switch_and_enable_interrupts`. -/
def preemptRestoreContextAndResume (memory : Bytes) (cpu : Cpu) (next : Word) : Cpu :=
  (contextSwitchAndEnableInterrupts cpu 0 (Context.load memory next)).2

namespace Cpu

/-- `ret`, at the local label of the primitives. -/
def ret (cpu : Cpu) (memory : Bytes) : Cpu :=
  { cpu with rip := memory.load cpu.rsp, rsp := cpu.rsp + 8 }

/-- The words on the stack of an interrupted task, from the lowest address on.  The CPU pushes
the last five, the stub the others. -/
def frameWords (cpu : Cpu) (vector : Word) : List Word :=
  frameRegisters.map cpu.registers ++
    [vector, cpu.rip, cpu.cs, cpu.rflags, cpu.rsp, cpu.ss]

/-- The CPU and the entry stub push the frame.  In 64-bit mode the CPU aligns the stack first. -/
def pushFrame (cpu : Cpu) (memory : Bytes) (vector : Word) : Word × Bytes :=
  memory.pushWords (cpu.rsp &&& ~~~0xF) (cpu.frameWords vector)

/-- The registers a function keeps for its caller. -/
def calleeSaved : List Register := [.rbx, .rbp, .r12, .r13, .r14, .r15]

variable {memory : Bytes}

/-- Registers are popped in the order in which their words stand. -/
theorem popRegisters_holds (values : Register → Word) (rest : List Word)
    (registers : List Register) (cpu : Cpu)
    (h : memory.Holds cpu.rsp (registers.map values ++ rest)) :
    ∃ popped, popRegisters (fun a => some (memory.load a)) registers cpu = some popped ∧
      (∀ r, popped.registers r = if r ∈ registers then values r else cpu.registers r) ∧
        memory.Holds popped.rsp rest := by
  induction registers generalizing cpu with
  | nil => exact ⟨cpu, rfl, fun r => by simp, h⟩
  | cons register registers ih =>
      obtain ⟨hfirst, hothers⟩ := h
      obtain ⟨popped, heq, hregisters, hrest⟩ :=
        ih { cpu.setRegister register (memory.load cpu.rsp) with rsp := cpu.rsp + 8 } hothers
      refine ⟨popped, heq, fun r => ?_, hrest⟩
      rw [hregisters]
      by_cases hlater : r ∈ registers
      · simp [hlater]
      · by_cases hr : r = register
        · subst hr
          simp [hlater, setRegister, hfirst]
        · simp [hlater, hr, setRegister]

/-- **The frame is read as it was written.**  The state that returns from an interrupt is the one
whose words stand in the frame. -/
theorem preemptRestoreAndIret_holds {cpu left : Cpu} {frame vector : Word}
    (hcs : left.cs &&& 0xFFFF = left.cs) (hss : left.ss &&& 0xFFFF = left.ss)
    (h : memory.Holds frame (left.frameWords vector)) :
    preemptRestoreAndIret (fun a => some (memory.load a)) cpu frame = some left := by
  obtain ⟨popped, heq, hregisters, hrest⟩ :=
    popRegisters_holds left.registers _ frameRegisters { cpu with rsp := frame } h
  have hall : popped.registers = left.registers := by
    funext r
    rw [hregisters, if_pos (by cases r <;> decide)]
  obtain ⟨-, hrip, hcs', hrflags, hrsp, hss', -⟩ := hrest
  rw [preemptRestoreAndIret, heq]
  dsimp only
  rw [iretq]
  -- the five words that follow the vector
  simp only [BitVec.add_assoc, BitVec.reduceAdd] at hrip hcs' hrflags hrsp hss' ⊢
  rw [hall, hrip, hcs', hrflags, hrsp, hss', hcs, hss]

end Cpu

/-! ## The machine -/

/-- Where a suspended task goes on: at a frame on its stack, or at the context in its object. -/
inductive Suspension
  | interrupt (frame : Word)
  | context (address : Word)

namespace Suspension

/-- The bytes that the task needs in order to go on: the frame, or the context and the return
address to which its stack pointer points. -/
def bytes (memory : Bytes) : Suspension → Set Word
  | interrupt frame => {x | (x - frame).toNat < 168}
  | context address => {x | (x - address).toNat < 64 ∨ (x - memory.load (address + 48)).toNat < 8}

/-- As long as they are kept, the bytes are the same ones. -/
theorem bytes_congr {memory memory' : Bytes} {suspension : Suspension}
    (h : ∀ x ∈ suspension.bytes memory, memory' x = memory x) :
    suspension.bytes memory' = suspension.bytes memory := by
  cases suspension with
  | interrupt frame => rfl
  | context address =>
      have hrsp : memory'.load (address + 48) = memory.load (address + 48) :=
        Bytes.load_congr fun x hx => h x (.inl (by bv_omega))
      rw [bytes, bytes, hrsp]

/-- The CPU goes on with the task. -/
def enter (memory : Bytes) (cpu : Cpu) : Suspension → Cpu
  | interrupt frame => (preemptRestoreAndIret (fun a => some (memory.load a)) cpu frame).getD cpu
  | context address => preemptRestoreContextAndResume memory cpu address

end Suspension

/-- The CPU, memory, the task that runs, and the suspended tasks.  No task runs while a handler or
a switch does. -/
structure Core (T : Type*) where
  cpu : Cpu
  memory : Bytes
  running : Option T
  suspended : T → Option Suspension

/-- What happens to the machine. -/
inductive CoreOp (T : Type*)
  /-- Code, of the running task or of the kernel. -/
  | execute (cpu : Cpu) (memory : Bytes)
  /-- An interrupt, up to the call of the handler. -/
  | interrupt (task : T) (vector : Word)
  /-- The saving half of a switch primitive, with its local label and the context it fills. -/
  | save (task : T) (resume context : Word)
  /-- The restoring half. -/
  | resume (task : T)

variable {T : Type*} [DecidableEq T]

namespace Core

/-- The step of an operation. -/
def step (s : Core T) : CoreOp T → Core T
  | .execute cpu memory => { s with cpu := cpu, memory := memory }
  | .interrupt task vector =>
      { cpu := { s.cpu with
          rsp := (s.cpu.pushFrame s.memory vector).1
          rflags := s.cpu.rflags &&& ~~~0x200 }
        memory := (s.cpu.pushFrame s.memory vector).2
        running := none
        suspended := update s.suspended task
          (some (.interrupt (s.cpu.pushFrame s.memory vector).1)) }
  | .save task resume context =>
      { cpu := s.cpu.setRegister .rax resume
        memory := s.memory.storeWords context (s.cpu.saved resume).words
        running := none
        suspended := update s.suspended task (some (.context context)) }
  | .resume task =>
      { s with
        cpu := ((s.suspended task).map (Suspension.enter s.memory s.cpu)).getD s.cpu
        running := some task
        suspended := update s.suspended task none }

/-- Memory as the suspended tasks need it. -/
def Spares (s : Core T) (memory : Bytes) : Prop :=
  ∀ task suspension, s.suspended task = some suspension →
    ∀ x ∈ suspension.bytes s.memory, memory x = s.memory x

/-- When an operation may happen.  Nothing is written over what a suspended task needs, neither by
code nor by the entry of an interrupt or by a switch; selectors have sixteen bits, and a context
does not lie on the return address of the call that fills it. -/
def Enabled (s : Core T) : CoreOp T → Prop
  | .execute _ memory => s.Spares memory
  | .interrupt task vector =>
      s.running = some task ∧ s.cpu.interruptsEnabled = true ∧
        s.cpu.cs &&& 0xFFFF = s.cpu.cs ∧ s.cpu.ss &&& 0xFFFF = s.cpu.ss ∧
          s.Spares (s.cpu.pushFrame s.memory vector).2
  | .save task resume context =>
      s.running = some task ∧ (∀ x, (x - s.cpu.rsp).toNat < 8 → 64 ≤ (x - context).toNat) ∧
        s.Spares (s.memory.storeWords context (s.cpu.saved resume).words)
  | .resume task => s.running = none ∧ (s.suspended task).isSome = true

end Core

/-- The machine as a transition system. -/
def coreSystem (T : Type*) [DecidableEq T] : TransitionSystem (Core T) (CoreOp T) where
  enabled := Core.Enabled
  step := Core.step

/-! ## Runs -/

namespace Core

/-- The task waits, and the bytes it goes on from are as they were in `memory`. -/
structure Waits (s : Core T) (task : T) (suspension : Suspension) (memory : Bytes) : Prop where
  suspended : s.suspended task = some suspension
  idle : s.running ≠ some task
  kept : ∀ x ∈ suspension.bytes memory, s.memory x = memory x

variable {s : Core T} {task : T} {suspension : Suspension} {memory : Bytes}

/-- One operation, apart from the resumption, keeps the task waiting. -/
theorem Waits.step (h : s.Waits task suspension memory) {op : CoreOp T} (henabled : s.Enabled op)
    (hop : op ≠ .resume task) : (s.step op).Waits task suspension memory := by
  have hother : ∀ {other}, s.running = some other → task ≠ other := by
    rintro other hrunning rfl
    exact h.idle hrunning
  have hkept : ∀ {new}, s.Spares new → ∀ x ∈ suspension.bytes memory, new x = memory x := by
    intro new hspares x hx
    have hx' : x ∈ suspension.bytes s.memory := by rwa [Suspension.bytes_congr h.kept]
    exact (hspares _ _ h.suspended x hx').trans (h.kept x hx)
  cases op with
  | execute cpu new => exact ⟨h.suspended, h.idle, hkept henabled⟩
  | interrupt other vector =>
      obtain ⟨hrunning, -, -, -, hspares⟩ := henabled
      exact ⟨(update_of_ne (hother hrunning) _ _).trans h.suspended, nofun, hkept hspares⟩
  | save other resume context =>
      obtain ⟨hrunning, -, hspares⟩ := henabled
      exact ⟨(update_of_ne (hother hrunning) _ _).trans h.suspended, nofun, hkept hspares⟩
  | resume other =>
      have hne : task ≠ other := fun heq => hop (congrArg _ heq.symm)
      exact ⟨(update_of_ne hne _ _).trans h.suspended,
        fun heq => hne (Option.some.inj heq).symm, h.kept⟩

theorem Waits.run (h : s.Waits task suspension memory) {ops : List (CoreOp T)}
    (hops : (coreSystem T).Admissible s ops) (hresume : .resume task ∉ ops) :
    ((coreSystem T).run s ops).Waits task suspension memory := by
  induction ops generalizing s with
  | nil => exact h
  | cons op ops ih =>
      obtain ⟨hop, hlater⟩ := List.ne_and_not_mem_of_not_mem_cons hresume
      exact ih (h.step hops.1 hop.symm) hops.2 hlater

/-- The CPU goes on where the task waits. -/
theorem Waits.resume (h : s.Waits task suspension memory) :
    (s.step (.resume task)).cpu = suspension.enter s.memory s.cpu := by
  rw [Core.step, h.suspended]
  rfl

end Core

/-- **An interrupt is invisible to the task it interrupts.**  Whatever tasks and handlers do until
the task is resumed, all registers are then as they were. -/
theorem interrupted_task_resumes_exactly (s : Core T) (task : T) (vector : Word)
    (ops : List (CoreOp T))
    (hrun : (coreSystem T).Admissible s (.interrupt task vector :: ops))
    (hops : .resume task ∉ ops) :
    ((coreSystem T).run s (.interrupt task vector :: ops ++ [.resume task])).cpu = s.cpu := by
  obtain ⟨⟨-, -, hcs, hss, -⟩, hrun⟩ := hrun
  have hwaits : Core.Waits (s.step (.interrupt task vector)) task
      (.interrupt (s.cpu.pushFrame s.memory vector).1) (s.cpu.pushFrame s.memory vector).2 :=
    ⟨update_self _ _ _, nofun, fun _ _ => rfl⟩
  have hlater := hwaits.run hrun hops
  have hframe : Bytes.Holds _ (s.cpu.pushFrame s.memory vector).1 (s.cpu.frameWords vector) :=
    (Bytes.holds_pushWords (by show 21 ≤ 0x2000000000000000; decide)).congr hlater.kept
  rw [List.cons_append, run_cons, run_append]
  refine hlater.resume.trans ?_
  rw [Suspension.enter, Cpu.preemptRestoreAndIret_holds hcs hss hframe]
  rfl

/-- A task that runs alone. -/
def demoCore : Core Bool := ⟨demoCpu, fun _ => 0, some false, fun _ => none⟩

/-- A handler that overwrites all registers and a byte of memory. -/
def demoHandler : CoreOp Bool :=
  .execute ⟨fun _ => 7, 0x100, 0x200, 0x08, 0x2, 0x10⟩
    (update (demoCpu.pushFrame demoCore.memory 0xF0).2 0 1)

theorem interrupted_task_resumes_exactly_demo :
    ((coreSystem Bool).run demoCore [.interrupt false 0xF0, demoHandler, .resume false]).cpu =
      demoCpu := by
  refine interrupted_task_resumes_exactly demoCore false 0xF0 [demoHandler]
    ⟨⟨rfl, rfl, rfl, rfl, nofun⟩, ?_, trivial⟩ (by simp [demoHandler])
  rintro (_ | _) suspension hsuspended x hx
  · obtain rfl := Option.some.inj hsuspended
    refine update_of_ne ?_ _ _
    rintro rfl
    have hinside : (0 - (demoCpu.pushFrame demoCore.memory 0xF0).1).toNat < 168 := hx
    exact absurd hinside (by decide)
  · cases hsuspended

/-- **A switch is a call.**  When a task has called a switch primitive and is resumed, it goes on
at the local label of the primitive with interrupts enabled, and the `ret` there returns to the
caller: with its stack pointer, its callee-saved registers, and at its return address. -/
theorem switched_task_returns (s : Core T) (task : T) (resume context : Word)
    (ops : List (CoreOp T))
    (hrun : (coreSystem T).Admissible s (.save task resume context :: ops))
    (hops : .resume task ∉ ops) :
    let after := (coreSystem T).run s (.save task resume context :: ops ++ [.resume task])
    after.cpu.rip = resume ∧ after.cpu.interruptsEnabled = true ∧
      (after.cpu.ret after.memory).rip = s.memory.load s.cpu.rsp ∧
      (after.cpu.ret after.memory).rsp = s.cpu.rsp + 8 ∧
      ∀ r ∈ Cpu.calleeSaved, (after.cpu.ret after.memory).registers r = s.cpu.registers r := by
  obtain ⟨⟨-, hapart, -⟩, hrun⟩ := hrun
  have hwaits : Core.Waits (s.step (.save task resume context)) task (.context context)
      (s.memory.storeWords context (s.cpu.saved resume).words) :=
    ⟨update_self _ _ _, nofun, fun _ _ => rfl⟩
  have hlater : ((coreSystem T).run ((coreSystem T).step s (.save task resume context)) ops).Waits
      task (.context context) _ := hwaits.run hrun hops
  dsimp only
  rw [List.cons_append, run_cons, run_append]
  generalize (coreSystem T).run _ ops = middle at hlater ⊢
  have hwords := holds_saved s.memory s.cpu resume context
  -- the context is still there, and so is the return address above its stack pointer
  have hcontext : Context.load middle.memory context = s.cpu.saved resume :=
    Context.load_of_holds (hwords.congr fun x hx => hlater.kept x (.inl hx))
  have hreturn : middle.memory.load s.cpu.rsp = s.memory.load s.cpu.rsp := by
    apply Bytes.load_congr
    intro x hx
    have hrsp : Bytes.load _ (context + 48) = s.cpu.rsp :=
      congrArg Context.rsp (Context.load_of_holds hwords)
    refine (hlater.kept x (.inr ?_)).trans (Bytes.storeWords_outside (hapart x hx))
    rwa [hrsp]
  have hcpu : ((coreSystem T).run middle [.resume task]).cpu =
      (contextSwitchAndEnableInterrupts middle.cpu 0 (s.cpu.saved resume)).2 := by
    rw [← hcontext]
    exact hlater.resume
  rw [hcpu]
  refine ⟨rfl, ?_, hreturn, rfl, fun r hr => ?_⟩
  · show (middle.cpu.rflags ||| 0x200).getLsbD 9 = true
    rw [BitVec.getLsbD_or]
    exact Bool.or_true _
  · simp only [Cpu.calleeSaved, List.mem_cons, List.not_mem_nil, or_false] at hr
    rcases hr with rfl | rfl | rfl | rfl | rfl | rfl <;> rfl

/-- Two tasks; the second waits at a context of zeros. -/
def demoSuspended : Core Bool :=
  { demoCore with suspended := update (fun _ => none) true (some (.context 0x9000)) }

/-- Memory when the first one has given the CPU away. -/
def demoSaved : Bytes := demoCore.memory.storeWords 0x8000 (demoCpu.saved 0x500).words

/-- The second task runs, overwrites all registers, and gives the CPU back. -/
def demoTurn : List (CoreOp Bool) :=
  [.resume true, .execute ⟨fun _ => 7, 0x100, 0x200, 0x08, 0x202, 0x10⟩ demoSaved,
    .save true 0x600 0x9000]

theorem switched_task_returns_demo :
    ((coreSystem Bool).run demoSuspended
      (.save false 0x500 0x8000 :: demoTurn ++ [.resume false])).cpu.rip = 0x500 := by
  refine (switched_task_returns demoSuspended false 0x500 0x8000 demoTurn
    ⟨⟨rfl, fun x hx => ?_, ?_⟩, ⟨rfl, rfl⟩, fun _ _ _ _ _ => rfl, ⟨rfl, fun x hx => ?_, ?_⟩,
      trivial⟩ (by simp [demoTurn])).1
  · have hstack : (x - 0xFFFFFFFF80100000).toNat < 8 := hx
    bv_omega
  · rintro (_ | _) suspension hsuspended x hx
    · cases hsuspended
    · obtain rfl := Option.some.inj hsuspended
      have hx' : (x - 0x9000).toNat < 64 ∨ (x - 0).toNat < 8 := hx
      exact Bytes.storeWords_outside (show 64 ≤ (x - 0x8000).toNat by bv_omega)
  · have hstack : (x - 0x100).toNat < 8 := hx
    bv_omega
  · rintro (_ | _) suspension hsuspended x hx
    · obtain rfl := Option.some.inj hsuspended
      have hrsp : demoSaved.load (0x8000 + 48) = 0xFFFFFFFF80100000 :=
        congrArg Context.rsp (Context.load_of_holds (holds_saved _ _ _ _))
      have hx' : (x - 0x8000).toNat < 64 ∨ (x - demoSaved.load (0x8000 + 48)).toNat < 8 := hx
      rw [hrsp] at hx'
      exact Bytes.storeWords_outside (show 64 ≤ (x - 0x9000).toNat by bv_omega)
    · cases hsuspended

end Batos
