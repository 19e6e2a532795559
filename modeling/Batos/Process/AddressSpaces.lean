import Batos.Process.Membership
import Batos.Vmm.Active

/-!
# Processes and the address spaces they name

A process names its address space by the address of its root.  `process_create` looks once
whether the VMM has a record in use for that address; from then on the name is kept by
`process.c` and the record by `vmm.c`, and neither asks the other.  The comments of the
source say so: the association is no ownership and no reference count, and the VMM owns
the lifetime of address spaces.

So what a registered process can rely on is a statement about the history of its name.
There has been a call of `process_create` that registered it, the name was in use then,
and it has been in use ever since exactly if no call of `vmm_destroy_address_space` has
destroyed it in between (`address_space_live_iff_not_destroyed`).  Nothing stops that call:
`demo_dangling` destroys the address space of a registered process.
-/

namespace Batos

open SlotRegistry (amend find)
open AddressSpaceRecord (inUse pml4Physical)

/-- The calls that create, switch and destroy address spaces and processes. -/
inductive SpaceOp
  | createAddressSpace
  | activateAddressSpace (root : Word)
  | destroyAddressSpace (root : Word)
  | processCreate (p : ProcessRef) (pid addressSpace : Word)
  | processTerminate (p : ProcessRef)
  | processDestroy (p : ProcessRef)
  deriving DecidableEq

namespace Kernel

/-- One call. -/
def spaceStep (k : Kernel) : SpaceOp → Kernel
  | .createAddressSpace => { k with vmm := (vmmCreateAddressSpace k.vmm).2 }
  | .activateAddressSpace root => { k with vmm := (vmmActivateAddressSpace k.vmm root).2 }
  | .destroyAddressSpace root => { k with vmm := (vmmDestroyAddressSpace k.vmm root).2 }
  | .processCreate p pid addressSpace => (processCreate k p pid addressSpace).2
  | .processTerminate p => (processTerminate k p).2
  | .processDestroy p => (processDestroy k p).2

/-- The VMM has a record in use for the root. -/
def SpaceLive (k : Kernel) (root : Word) : Prop := findAddressSpaceRecord k.vmm root ≠ none

instance (k : Kernel) (root : Word) : Decidable (k.SpaceLive root) :=
  inferInstanceAs (Decidable (_ ≠ _))

/-- The root has a record in use before, between and after the calls. -/
def LiveThroughout (root : Word) : Kernel → List SpaceOp → Prop
  | k, [] => k.SpaceLive root
  | k, op :: ops => k.SpaceLive root ∧ LiveThroughout root (k.spaceStep op) ops

/-- One of the calls destroys the root. -/
def DestroysSpace (root : Word) : Kernel → List SpaceOp → Prop
  | _, [] => False
  | k, op :: ops =>
      (op = .destroyAddressSpace root ∧ (vmmDestroyAddressSpace k.vmm root).1 = 0) ∨
        DestroysSpace root (k.spaceStep op) ops

end Kernel

/-- All interleavings of these calls, with any arguments. -/
def spaceSystem : TransitionSystem Kernel SpaceOp where
  enabled := fun _ _ => True
  step := Kernel.spaceStep

/-! ## The life of a record -/

section Life

variable {k : Kernel} {root : Word}

theorem spaceLive_iff (k : Kernel) (root : Word) :
    k.SpaceLive root ↔ root ≠ 0 ∧ k.vmm.space root ≠ none := by
  unfold Kernel.SpaceLive findAddressSpaceRecord
  by_cases hzero : root = 0
  · rw [if_pos hzero]
    exact iff_of_false (fun hne => hne rfl) fun hne => hne.1 hzero
  · rw [if_neg hzero]
    exact ⟨fun hne => ⟨hzero, hne⟩, fun hne => hne.2⟩

/-- Only what a call does to the search for records matters. -/
theorem Kernel.SpaceLive.of_space {k' : Kernel} (h : k.SpaceLive root)
    (hspace : k'.vmm.space root = none → k.vmm.space root = none) : k'.SpaceLive root := by
  rw [spaceLive_iff] at h ⊢
  exact ⟨h.1, fun hnone => h.2 (hspace hnone)⟩

theorem spaceLive_create (h : k.vmm.Orderly) (hlive : k.SpaceLive root) :
    (k.spaceStep .createAddressSpace).SpaceLive root := by
  refine hlive.of_space fun hnone => ?_
  rcases vmmCreateAddressSpace_steady h.booked with
    ⟨paging, heq, -⟩ | ⟨new, paging, spaces, heq, -, hnew, -, henrols⟩
  · simp only [Kernel.spaceStep, heq] at hnone
    exact hnone
  · simp only [Kernel.spaceStep, heq] at hnone
    cases hspace : k.vmm.space root with
    | none => rfl
    | some record =>
        -- a root that has a record is not free to be handed out
        have hne : root ≠ new := by
          rintro rfl
          exact Paging.Grown.not_root hnew (h.roots hspace)
        have hother : find inUse pml4Physical root
            spaces = k.vmm.space root :=
            SlotRegistry.find_claim_of_ne (fun _ => rfl) henrols.claim hne
        rw [← hspace, ← hother]
        exact hnone

theorem spaceLive_activate (h : k.vmm.Orderly) (hlive : k.SpaceLive root) (q : Word) :
    (k.spaceStep (.activateAddressSpace q)).SpaceLive root := by
  refine hlive.of_space fun hnone => ?_
  rcases vmmActivateAddressSpace_outcome h.booked q with
    heq | ⟨target, t, -, -, -, -, ⟨heq, -, -⟩ | heq⟩
  · simp only [Kernel.spaceStep, heq] at hnone
    exact hnone
  · simp only [Kernel.spaceStep, heq] at hnone
    exact hnone
  · simp only [Kernel.spaceStep, heq] at hnone
    have hswitch := h.space_switchSpace q root
    rw [show find _ _ root (k.vmm.switchSpace q) = none from hnone] at hswitch
    exact Option.map_eq_none_iff.mp hswitch.symm

/-- A record goes out of use exactly when its address space is destroyed. -/
theorem spaceLive_destroy (h : k.vmm.Orderly) (hlive : k.SpaceLive root) (q : Word) :
    (k.spaceStep (.destroyAddressSpace q)).SpaceLive root ↔
      ¬ (q = root ∧ (vmmDestroyAddressSpace k.vmm q).1 = 0) := by
  rcases vmmDestroyAddressSpace_drops h.booked q with
    ⟨paging, epoch, heq, -⟩ | ⟨record, paging, epoch, cloned, -, -, -, -, heq⟩
  · refine iff_of_true (hlive.of_space fun hnone => ?_) fun hok => ?_
    · simp only [Kernel.spaceStep, heq] at hnone
      exact hnone
    · rw [heq] at hok
      cases hok.2
  · set retire : AddressSpaceRecord → AddressSpaceRecord := fun record =>
      { record with state := .inactive, inUse := false }
    have hdead : ∀ record, (retire record).inUse = false := fun _ => rfl
    by_cases hq : q = root
    · subst hq
      refine iff_of_false (fun hkept => ?_) fun hnot => hnot ⟨rfl, by rw [heq]⟩
      rw [spaceLive_iff] at hkept
      simp only [Kernel.spaceStep, heq] at hkept
      exact hkept.2 (SlotRegistry.find_retire_self hdead h.nodup)
    · refine iff_of_true (hlive.of_space fun hnone => ?_) fun hok => hq hok.1
      simp only [Kernel.spaceStep, heq] at hnone
      have hother : find inUse pml4Physical root
          (amend inUse pml4Physical q retire
            k.vmm.addressSpaceRecords) = k.vmm.space root :=
        SlotRegistry.find_retire_of_ne hdead (Ne.symm hq)
      exact hother.symm.trans hnone

end Life

/-! ## What the calls do to processes -/

section Bindings

variable {k : Kernel}

/-- A call keeps the registry of processes in order, and a process that is registered after
it was so before, under the same name, or has just been registered with a name in use. -/
theorem spaceStep_registered (h : k.Enrolled) (op : SpaceOp) :
    (k.spaceStep op).Enrolled ∧ ∀ p, (k.spaceStep op).processRegistry.Mem p →
      (k.processRegistry.Mem p ∧
          ((k.spaceStep op).processes p).addressSpace = (k.processes p).addressSpace) ∨
        ∃ pid, op = .processCreate p pid ((k.spaceStep op).processes p).addressSpace ∧
          (processCreate k p pid ((k.spaceStep op).processes p).addressSpace).1 = 0 ∧
          k.SpaceLive ((k.spaceStep op).processes p).addressSpace := by
  have hstay : ∀ {k' : Kernel}, k' = k → k'.Enrolled ∧ ∀ p, k'.processRegistry.Mem p →
      k.processRegistry.Mem p ∧ (k'.processes p).addressSpace = (k.processes p).addressSpace := by
    rintro k' rfl
    exact ⟨h, fun p hp => ⟨hp, rfl⟩⟩
  cases op with
  | createAddressSpace | activateAddressSpace | destroyAddressSpace =>
      exact ⟨⟨h.initialized, h.keyed⟩, fun p hp => .inl ⟨hp, rfl⟩⟩
  | processCreate q pid root =>
      have hset : ∀ process, ¬ k.processRegistry.Mem q → ∀ p, k.processRegistry.Mem p →
          (k.setProcess q process).processes p = k.processes p := by
        intro process hq p hp
        refine Function.update_of_ne ?_ _ _
        rintro rfl
        exact hq hp
      rcases h.create q pid root with
        ⟨code, k', -, heq, hk' | ⟨hq, hk'⟩⟩ | ⟨index, hq, hfree, hid, hlive, -, heq⟩
      · simp only [Kernel.spaceStep, heq]
        exact ⟨(hstay hk').1, fun p hp => .inl ((hstay hk').2 p hp)⟩
      · simp only [Kernel.spaceStep, heq, hk']
        exact ⟨h.setProcess hq {}, fun p hp => .inl ⟨hp, by rw [hset {} hq p hp]⟩⟩
      · simp only [Kernel.spaceStep, heq]
        set process : Process := { id := pid, state := .active, addressSpace := root }
        have hself : (k.setProcess q process).processes q = process := Function.update_self _ _ _
        refine ⟨⟨h.initialized, (h.setProcess hq process).keyed.insert (by rw [hself]; exact hid)⟩,
          fun p hp => ?_⟩
        rcases (IdTable.mem_insert_of_free hfree).mp hp with rfl | hp
        · rw [hself]
          exact .inr ⟨pid, rfl, by rw [heq], hlive⟩
        · exact .inl ⟨hp, by rw [hset process hq p hp]⟩
  | processTerminate q =>
      rcases processTerminate_outcome k q with hk' | hk'
      · exact ⟨(hstay hk').1, fun p hp => .inl ((hstay hk').2 p hp)⟩
      · simp only [Kernel.spaceStep, hk']
        have hkeep : ∀ p, let x :=
          (k.setProcess q { k.processes q with state := .terminated }).processes p
            x.id = (k.processes p).id ∧ x.addressSpace = (k.processes p).addressSpace := by
          refine (Function.forall_update_iff k.processes fun p x => x.id = (k.processes p).id ∧
            x.addressSpace = (k.processes p).addressSpace).mpr ?_
          exact ⟨⟨rfl, rfl⟩, fun _ _ => ⟨rfl, rfl⟩⟩
        exact ⟨⟨h.initialized, h.keyed.congr fun p _ => congrArg BitVec.toNat (hkeep p).1⟩,
          fun p hp => .inl ⟨hp, (hkeep p).2⟩⟩
  | processDestroy q =>
      rcases processDestroy_outcome k q with hk' | ⟨index, hslot, hk'⟩
      · exact ⟨(hstay hk').1, fun p hp => .inl ((hstay hk').2 p hp)⟩
      · simp only [Kernel.spaceStep, hk']
        have hmem : ∀ p, (k.processRegistry.erase index).Mem p ↔ k.processRegistry.Mem p ∧ p ≠ q :=
          fun p => h.keyed.mem_erase hslot
        have herased : ({ k with processRegistry := k.processRegistry.erase index } :
          Kernel).Enrolled :=
          ⟨h.initialized, h.keyed.erase⟩
        refine ⟨herased.setProcess (fun hq => ((hmem q).mp hq).2 rfl) {}, fun p hp => .inl ?_⟩
        obtain ⟨hp, hne⟩ := (hmem p).mp hp
        exact ⟨hp, congrArg Process.addressSpace (Function.update_of_ne hne _ _)⟩

end Bindings

/-! ## Runs -/

section Runs

variable {k : Kernel}

/-- What holds along every run: order in the VMM and in the registry of processes. -/
structure Kernel.SpacesInv (k : Kernel) : Prop where
  orderly : k.vmm.Orderly
  enrolled : k.Enrolled

theorem Kernel.SpacesInv.step (h : k.SpacesInv) (op : SpaceOp) : (k.spaceStep op).SpacesInv := by
  refine ⟨?_, (spaceStep_registered h.enrolled op).1⟩
  cases op with
  | createAddressSpace => exact (Vmm.Proceeds.create h.orderly).orderly
  | activateAddressSpace root => exact (h.orderly.activate root).1.orderly
  | destroyAddressSpace root => exact (Vmm.Proceeds.destroy h.orderly root).orderly
  | processCreate p pid root => exact (vmm_processCreate h.enrolled p pid root).symm ▸ h.orderly
  | processTerminate p => exact (vmm_processTerminate k p).symm ▸ h.orderly
  | processDestroy p => exact (vmm_processDestroy k p).symm ▸ h.orderly

theorem Kernel.SpacesInv.run (h : k.SpacesInv) (ops : List SpaceOp) :
    (spaceSystem.run k ops).SpacesInv := by
  induction ops generalizing k with
  | nil => exact h
  | cons op ops ih => exact ih (h.step op)

/-- One call takes a record out of use exactly if it destroys the address space. -/
theorem Kernel.SpacesInv.spaceLive_step (h : k.SpacesInv) {root : Word} (hlive : k.SpaceLive root)
    (op : SpaceOp) : (k.spaceStep op).SpaceLive root ↔
      ¬ (op = .destroyAddressSpace root ∧ (vmmDestroyAddressSpace k.vmm root).1 = 0) := by
  have hkeep : ∀ {k' : Kernel}, k'.vmm = k.vmm → k'.SpaceLive root := by
    intro k' hvmm
    rw [Kernel.SpaceLive, hvmm]
    exact hlive
  cases op with
  | createAddressSpace => exact iff_of_true (spaceLive_create h.orderly hlive) nofun
  | activateAddressSpace q => exact iff_of_true (spaceLive_activate h.orderly hlive q) nofun
  | destroyAddressSpace q =>
      rw [spaceLive_destroy h.orderly hlive q, SpaceOp.destroyAddressSpace.injEq]
      constructor
      · rintro hnot ⟨rfl, hok⟩
        exact hnot ⟨rfl, hok⟩
      · rintro hnot ⟨rfl, hok⟩
        exact hnot ⟨rfl, hok⟩
  | processCreate p pid q => exact iff_of_true (hkeep (vmm_processCreate h.enrolled p pid q)) nofun
  | processTerminate p => exact iff_of_true (hkeep (vmm_processTerminate k p)) nofun
  | processDestroy p => exact iff_of_true (hkeep (vmm_processDestroy k p)) nofun

/-- A record in use stays in use exactly as long as its address space is not destroyed. -/
theorem Kernel.SpacesInv.liveThroughout_iff (h : k.SpacesInv) {root : Word}
    (hlive : k.SpaceLive root) (ops : List SpaceOp) :
    k.LiveThroughout root ops ↔ ¬ k.DestroysSpace root ops := by
  induction ops generalizing k with
  | nil => exact iff_of_true hlive id
  | cons op ops ih =>
      rw [Kernel.LiveThroughout, Kernel.DestroysSpace, not_or]
      have hstep := h.spaceLive_step hlive op
      constructor
      · rintro ⟨-, hrest⟩
        have hnext : (k.spaceStep op).SpaceLive root := by
          cases ops with
          | nil => exact hrest
          | cons _ _ => exact hrest.1
        exact ⟨hstep.mp hnext, (ih (h.step op) hnext).mp hrest⟩
      · rintro ⟨hkept, hrest⟩
        have hnext := hstep.mpr hkept
        exact ⟨hlive, (ih (h.step op) hnext).mpr hrest⟩

/-- Every registered process has been registered by a call, which found its name in use. -/
theorem Kernel.SpacesInv.registration (h : k.SpacesInv) (hempty : ∀ p, ¬ k.processRegistry.Mem p)
    (ops : List SpaceOp) {p : ProcessRef} (hp : (spaceSystem.run k ops).processRegistry.Mem p) :
    ∃ pre pid post,
      ops = pre ++ .processCreate p pid ((spaceSystem.run k ops).processes p).addressSpace :: post ∧
      (processCreate (spaceSystem.run k pre) p pid
        ((spaceSystem.run k ops).processes p).addressSpace).1 = 0 ∧
      (spaceSystem.run k pre).SpaceLive ((spaceSystem.run k ops).processes p).addressSpace := by
  induction ops using List.reverseRecOn with
  | nil => exact absurd hp (hempty p)
  | append_singleton ops op ih =>
      have hrun : spaceSystem.run k (ops ++ [op]) = (spaceSystem.run k ops).spaceStep op :=
        spaceSystem.run_append k ops [op]
      rw [hrun] at hp ⊢
      rcases (spaceStep_registered (h.run ops).enrolled op).2 p hp with
        ⟨hbefore, hname⟩ | ⟨pid, hop, hok, hlive⟩
      · obtain ⟨pre, pid, post, hops, hok, hlive⟩ := ih hbefore
        rw [hname]
        refine ⟨pre, pid, post ++ [op], ?_, hok, hlive⟩
        rw [← List.cons_append, ← List.append_assoc, ← hops]
      · exact ⟨ops, pid, [], congrArg (ops ++ [·]) hop, hok, hlive⟩

end Runs

/-- A kernel whose memory subsystem has been running and whose registry of processes has
just been set up; everything else is arbitrary. -/
def Kernel.spacesStart (k : Kernel) (m : Mm) : Kernel := processRegistryInit { k with vmm := m.vmm }

theorem Kernel.spacesInv_start (image : KernelImage) (boot : VmmBoot) {m : Mm}
    (hm : (vmmSystem image).Reachable boot.start m) (k : Kernel) : (k.spacesStart m).SpacesInv :=
  ⟨(Mm.orderly_run image boot.orderly_start hm).vmm, rfl, nofun⟩

/-- **The address space of a registered process lives until the VMM destroys it.**  Every
process in the registry was registered by a successful `process_create`; its address space
had a record in use before that call, and has had one in every state since exactly if no
`vmm_destroy_address_space` of it has succeeded since. -/
theorem address_space_live_iff_not_destroyed (image : KernelImage) (boot : VmmBoot) {m : Mm}
    (hm : (vmmSystem image).Reachable boot.start m) (k : Kernel) (ops : List SpaceOp)
    {p : ProcessRef}
    (hp : (spaceSystem.run (k.spacesStart m) ops).processRegistry.Mem p) :
    ∃ pre pid post root, ((spaceSystem.run (k.spacesStart m) ops).processes p).addressSpace = root ∧
      ops = pre ++ .processCreate p pid root :: post ∧
      (processCreate (spaceSystem.run (k.spacesStart m) pre) p pid root).1 = 0 ∧
      (spaceSystem.run (k.spacesStart m) pre).SpaceLive root ∧
      ((spaceSystem.run (k.spacesStart m) pre).LiveThroughout root
        (.processCreate p pid root :: post) ↔
        ¬ (spaceSystem.run (k.spacesStart m) pre).DestroysSpace root
          (.processCreate p pid root :: post)) := by
  have hinv := Kernel.spacesInv_start image boot hm k
  obtain ⟨pre, pid, post, hops, hok, hlive⟩ := hinv.registration (fun q hq => by
    obtain ⟨index, hslot⟩ := hq
    cases hslot) ops hp
  exact ⟨pre, pid, post, _, rfl, hops, hok, hlive, (hinv.run pre).liveThroughout_iff hlive _⟩

/-- Two address spaces, and no process yet. -/
def demoUnbound : Kernel := { vmm := demoSpaces.vmm }

/-- A process gets the second of them, a third one is created and activated, and the second
is destroyed. -/
def demoSpaceOps : List SpaceOp :=
  [.processCreate 5 1 0x3000, .createAddressSpace, .activateAddressSpace 0x4000,
    .destroyAddressSpace 0x3000]

theorem address_space_live_iff_not_destroyed_demo :
    (spaceSystem.run (demoUnbound.spacesStart demoSpaces) demoSpaceOps).processRegistry.Mem 5 ∧
      ¬ (demoUnbound.spacesStart demoSpaces).LiveThroughout 0x3000 demoSpaceOps := by
  have hp : (spaceSystem.run (demoUnbound.spacesStart demoSpaces)
      demoSpaceOps).processRegistry.Mem 5 := ⟨0, by decide +kernel⟩
  have hdestroys : (demoUnbound.spacesStart demoSpaces).DestroysSpace 0x3000 demoSpaceOps :=
    .inr (.inr (.inr (.inl ⟨rfl, by decide +kernel⟩)))
  obtain ⟨pre, pid, post, root, -, hops, -, -, hiff⟩ := address_space_live_iff_not_destroyed
    demoImage demoBoot.vmmBoot demoSpaces_reachable demoUnbound demoSpaceOps hp
  cases pre with
  | nil =>
      cases hops
      exact ⟨hp, fun hlive => hiff.mp hlive hdestroys⟩
  | cons op pre => simp [demoSpaceOps, List.cons_eq_append_iff] at hops

/-- **Nothing keeps the address space of a process alive**: it is destroyed, the call
returns 0, and the process is still registered under its name. -/
theorem demo_dangling :
    let k := spaceSystem.run (demoUnbound.spacesStart demoSpaces)
      [.processCreate 5 1 0x3000, .destroyAddressSpace 0x3000]
    k.processRegistry.Mem 5 ∧ (k.processes 5).addressSpace = 0x3000 ∧ ¬ k.SpaceLive 0x3000 := by
  refine ⟨⟨0, ?_⟩, ?_, ?_⟩
  · decide +kernel
  · decide +kernel
  · decide +kernel

end Batos
