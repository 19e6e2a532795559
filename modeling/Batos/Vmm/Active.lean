import Batos.Vmm.Books

/-!
# The active address space

Which address space is active is written down four times: in the state of its record, in
`active_address_space_pml4`, in the registry of page tables and in CR3.  The four agree in
every state that calls of `vmm.h` lead to after `vmm_init`, with no restriction on what is
mapped, prepared or destroyed; in particular the kernel root may be destroyed like any
other.

`Vmm.Orderly` is the invariant.  It speaks of the records through the one function that
reads them, the search for the record of a root, so that each operation needs to know only
what it does to that search.  `Vmm.Proceeds` is what a call does: it leads to an orderly
state, takes no frame from a client, and never back to a state in which nothing has been
activated.
-/

namespace Batos

open SlotRegistry (amend find find_spec liveKeys)
open AddressSpaceRecord (inUse pml4Physical)

variable {v : Vmm} {root : Word} {paging : Paging} {record : AddressSpaceRecord}

/-- The record in use of a root. -/
def Vmm.space (v : Vmm) (root : Word) : Option AddressSpaceRecord :=
  find inUse pml4Physical root
    v.addressSpaceRecords

theorem findAddressSpaceRecord_of_ne_zero (h : root ≠ 0) :
    findAddressSpaceRecord v root = v.space root := if_neg h

/-- A space is enrolled once. -/
theorem Vmm.Enrols.notMem {spaces : List AddressSpaceRecord} (h : v.Enrols root spaces) :
    root ∉ liveKeys inUse
      pml4Physical v.addressSpaceRecords :=
  SlotRegistry.find_eq_none_iff.mp
    ((findAddressSpaceRecord_of_ne_zero h.nonzero).symm.trans h.fresh)

/-- The lifecycle states, the registry and CR3 agree. -/
structure Vmm.Orderly (v : Vmm) : Prop where
  booked : v.paging.Booked
  nodup : (liveKeys inUse pml4Physical
    v.addressSpaceRecords).Nodup
  roots : ∀ {root record}, v.space root = some record → v.paging.IsRoot root
  unique : ∀ {root record}, v.space root = some record → record.state = .active →
    root = v.activeAddressSpacePml4
  active : v.activeAddressSpacePml4 ≠ 0 →
    v.cr3 &&& addressMask = v.activeAddressSpacePml4 ∧
      ∃ record, v.space v.activeAddressSpacePml4 = some record ∧ record.state = .active

/-- What a call leads to. -/
structure Vmm.Proceeds (v v' : Vmm) : Prop where
  orderly : v'.Orderly
  foreign : ∀ {q}, v.paging.Foreign q → v'.paging.Foreign q
  activated : v.activeAddressSpacePml4 ≠ 0 → v'.activeAddressSpacePml4 ≠ 0

namespace Vmm.Proceeds

variable {v v' v'' : Vmm}

theorem refl (h : v.Orderly) : v.Proceeds v := ⟨h, id, id⟩

theorem trans (h₁ : v.Proceeds v') (h₂ : v'.Proceeds v'') : v.Proceeds v'' :=
  ⟨h₂.orderly, fun hq => h₂.foreign (h₁.foreign hq), fun hne => h₂.activated (h₁.activated hne)⟩

/-- Calls that leave the records of address spaces alone. -/
theorem of_steady (h : v.Orderly) (hsteady : v.paging.Steady paging) (epoch kernel cloned : Word) :
    v.Proceeds { v with
      paging := paging, validationEpoch := epoch, kernelPml4 :=
        kernel, lastClonedPml4 := cloned } :=
  ⟨⟨hsteady.booked, h.nodup, fun hspace => hsteady.roots (h.roots hspace), h.unique, h.active⟩,
    hsteady.foreign, id⟩

/-- The record of a new root. -/
theorem create (h : v.Orderly) : v.Proceeds (vmmCreateAddressSpace v).2 := by
  rcases vmmCreateAddressSpace_steady h.booked with
    ⟨paging, heq, hsteady⟩ | ⟨root, paging, spaces, heq, hsteady, hnew, hroot, henrols⟩
  · rw [heq]
    exact of_steady h hsteady _ _ _
  rw [heq]
  have hfresh := henrols.notMem
  obtain ⟨-, hself⟩ := SlotRegistry.find_claim_self (fun _ => rfl) (fun _ => rfl)
    henrols.claim h.nodup hfresh
  have hother : ∀ {q}, q ≠ root → find inUse
      pml4Physical q spaces = v.space q := fun hne =>
    SlotRegistry.find_claim_of_ne (fun _ => rfl) henrols.claim hne
  refine ⟨⟨hsteady.booked,
    SlotRegistry.nodup_claim (fun _ => rfl) (fun _ => rfl) henrols.claim h.nodup hfresh,
    fun {q record} hspace => ?_, fun {q record} hspace hstate => ?_, fun hne => ?_⟩,
    hsteady.foreign, id⟩
  · by_cases hq : q = root
    · rw [hq]
      exact hroot
    · exact hsteady.roots (h.roots ((hother hq).symm.trans hspace))
  · by_cases hq : q = root
    · subst hq
      obtain rfl := Option.some.inj (hself.symm.trans hspace)
      cases hstate
    · exact h.unique ((hother hq).symm.trans hspace) hstate
  · obtain ⟨hcr3, record, hspace, hstate⟩ := h.active hne
    refine ⟨hcr3, record, (hother ?_).trans hspace, hstate⟩
    rintro heq'
    change v.activeAddressSpacePml4 = root at heq'
    exact Paging.Grown.not_root hnew (heq' ▸ h.roots hspace)

/-- `vmm_init`, whether it succeeds or not. -/
theorem init (h : v.Orderly) : v.Proceeds (vmmInit v) := by
  have hcreate := create h
  exact hcreate.trans (of_steady hcreate.orderly (.refl hcreate.orderly.booked)
    (vmmCreateAddressSpace v).2.validationEpoch ((vmmCreateAddressSpace v).1.getD 0) 0)

/-- A destroyed address space: its record is out of use, and it was not the active one. -/
theorem destroy (h : v.Orderly) (root : Word) : v.Proceeds (vmmDestroyAddressSpace v root).2 := by
  rcases vmmDestroyAddressSpace_drops h.booked root with
    ⟨paging, epoch, heq, hsteady⟩ | ⟨record, paging, epoch, cloned, hactive, -, -, hdrops, heq⟩
  · rw [heq]
    exact of_steady h hsteady _ _ _
  rw [heq]
  set retire : AddressSpaceRecord → AddressSpaceRecord := fun record =>
    { record with state := .inactive, inUse := false } with hretire
  have hdead : ∀ record, (retire record).inUse = false := fun _ => rfl
  have hself := SlotRegistry.find_retire_self (k := root) hdead h.nodup
  have hother : ∀ {q}, q ≠ root → find inUse
      pml4Physical q (amend inUse
        pml4Physical root retire v.addressSpaceRecords) = v.space q := fun hne =>
    SlotRegistry.find_retire_of_ne hdead hne
  have hlive : ∀ {q record}, find inUse
      pml4Physical q (amend inUse
        pml4Physical root retire v.addressSpaceRecords) = some record →
      q ≠ root ∧ v.space q = some record := by
    intro q record hspace
    have hne : q ≠ root := by
      rintro rfl
      rw [hself] at hspace
      cases hspace
    exact ⟨hne, (hother hne).symm.trans hspace⟩
  refine ⟨⟨hdrops.booked, h.nodup.sublist (SlotRegistry.liveKeys_retire_sublist hdead),
    fun hspace => ?_, fun hspace hstate => h.unique (hlive hspace).2 hstate, fun hne => ?_⟩,
    hdrops.foreign, id⟩
  · obtain ⟨hne, hspace⟩ := hlive hspace
    exact hdrops.roots hne (h.roots hspace)
  · obtain ⟨hcr3, record, hspace, hstate⟩ := h.active hne
    exact ⟨hcr3, record, (hother hactive.symm).trans hspace, hstate⟩

/-- `vmm_create_kernel_address_space`, whether it succeeds or not. -/
theorem createKernel (h : v.Orderly) (image : KernelImage) :
    v.Proceeds (vmmCreateKernelAddressSpace image v).2 := by
  have hcreate := create h
  refine vmmCreateKernelAddressSpace_rule (refl h) hcreate fun root v₁ hcall => ?_
  rw [hcall] at hcreate
  have hmapped : v.Proceeds { v₁ with paging := (image.map root v₁.paging).2 } := hcreate.trans
    (of_steady hcreate.orderly (mapKernelSections_steady root _ _ _ _ hcreate.orderly.booked) _ _ _)
  exact ⟨hmapped, hmapped.trans (destroy hmapped.orderly root)⟩

end Vmm.Proceeds

/-! ## Activation -/

namespace Vmm.Orderly

variable {v : Vmm}

/-- What the records say after a switch: the target is active, and the others are not. -/
theorem space_switchSpace (h : v.Orderly) (root q : Word) :
    find inUse pml4Physical q (v.switchSpace root) =
      (v.space q).map fun record =>
        if q = root then { record with state := .active }
        else if q = v.activeAddressSpacePml4 then
          { record with state := .inactive } else record := by
  have hactive : ∀ {k' : Word} {state : AddressSpaceState} {slots : List AddressSpaceRecord},
      find inUse pml4Physical q
        (amend inUse pml4Physical k'
          (fun record => { record with state := state }) slots) =
      (find inUse pml4Physical q slots).map
        fun record => if q = k' then { record with state := state } else record := by
    intro k' state slots
    by_cases hq : q = k'
    · subst hq
      simp only [if_true]
      exact SlotRegistry.find_amend_self (fun _ => rfl) (fun _ => rfl)
    · simp only [if_neg hq, Option.map_id']
      exact SlotRegistry.find_amend_of_ne
        (f := fun record : AddressSpaceRecord => { record with state := state }) (fun _ _ => rfl) hq
  unfold Vmm.switchSpace
  dsimp only [Vmm.amendSpace]
  rw [hactive]
  by_cases hprevious : v.activeAddressSpacePml4 ≠ 0 ∧ v.activeAddressSpacePml4 ≠ root
  · rw [if_pos hprevious, hactive, Option.map_map]
    congr 1
    funext record
    by_cases hq : q = root
    · have hne : q ≠ v.activeAddressSpacePml4 := fun heq => hprevious.2 (heq.symm.trans hq)
      simp [hq, hprevious.2.symm]
    · simp [hq]
  · rw [if_neg hprevious]
    cases hspace : v.space q with
    | none => rw [show find _ _ q v.addressSpaceRecords = none from hspace]; rfl
    | some record =>
        rw [show find _ _ q v.addressSpaceRecords = some record from hspace]
        have hnot : q ≠ root → q ≠ v.activeAddressSpacePml4 := by
          rintro hne rfl
          refine hprevious ⟨fun hzero => ?_, hne⟩
          exact v.paging.not_isRoot_zero (hzero ▸ h.roots hspace)
        by_cases hq : q = root
        · simp [hq]
        · simp [hq, hnot hq]

/-- Switching spaces changes states, not roots. -/
theorem nodup_switchSpace (h : v.Orderly) (root : Word) :
    (liveKeys inUse pml4Physical
      (v.switchSpace root)).Nodup := by
  have hkeys : ∀ (k : Word) (state : AddressSpaceState) (slots : List AddressSpaceRecord),
      liveKeys inUse pml4Physical
        (amend inUse pml4Physical k
          (fun record => { record with state := state }) slots) =
      liveKeys inUse pml4Physical slots :=
    fun k state slots => SlotRegistry.liveKeys_amend
      (f := fun record : AddressSpaceRecord => { record with state := state })
      (fun _ => rfl) fun _ => rfl
  unfold Vmm.switchSpace
  dsimp only [Vmm.amendSpace]
  rw [hkeys]
  split_ifs
  · rw [hkeys]
    exact h.nodup
  · exact h.nodup

/-- **Activation** moves all four notes of the active address space at once. -/
theorem activate (h : v.Orderly) (root : Word) :
    v.Proceeds (vmmActivateAddressSpace v root).2 ∧
      ((vmmActivateAddressSpace v root).1 = 0 →
        (vmmActivateAddressSpace v root).2.activeAddressSpacePml4 ≠ 0) := by
  rcases vmmActivateAddressSpace_outcome h.booked root with
    heq | ⟨target, t, hzero, hfind, ht, hl, ⟨heq, hactive, -⟩ | heq⟩
  · rw [heq]
    exact ⟨.refl h, nofun⟩
  · rw [heq]
    exact ⟨.refl h, fun _ => hactive ▸ hzero⟩
  rw [heq]
  rw [findAddressSpaceRecord_of_ne_zero hzero] at hfind
  have hswitch := h.space_switchSpace root
  refine ⟨⟨⟨h.booked, h.nodup_switchSpace root, fun {q record} hspace => ?_,
    fun {q record} hspace hstate => ?_, fun _ => ⟨?_, { target with state := .active }, ?_, rfl⟩⟩,
    fun hq => hq, fun _ => hzero⟩, fun _ => hzero⟩
  · change find _ _ q (v.switchSpace root) = _ at hspace
    rw [hswitch, Option.map_eq_some_iff] at hspace
    obtain ⟨record, hspace, -⟩ := hspace
    exact h.roots hspace
  · -- a record that is active after the switch and is not the target was active before
    change q = root
    change find _ _ q (v.switchSpace root) = _ at hspace
    rw [hswitch, Option.map_eq_some_iff] at hspace
    obtain ⟨record, hspace, rfl⟩ := hspace
    by_contra hq
    rw [if_neg hq] at hstate
    by_cases hactive : q = v.activeAddressSpacePml4
    · rw [if_pos hactive] at hstate
      cases hstate
    · rw [if_neg hactive] at hstate
      exact hactive (h.unique hspace hstate)
  · exact (h.booked.frames ht).frameAligned h.booked.sound
  · change find _ _ root (v.switchSpace root) = _
    rw [hswitch, hfind, Option.map_some, if_pos rfl]

end Vmm.Orderly

/-! ## Runs of all calls -/

/-- Callers keep to their own frames. -/
def Mm.Permitted (m : Mm) : MmOp → Prop
  | .freeFrame address => address ∈ m.held
  | .store address _ _ => address ∈ m.held
  | _ => True

/-- All calls of `vmm.h`, destroying the kernel root included, and clients of the PMM. -/
def vmmSystem (image : KernelImage) : TransitionSystem Mm MmOp where
  enabled := Mm.Permitted
  step := Mm.step image

/-- A boot up to `vmm_init`, which may fail: a Limine memory map, calls of the PMM, and
whatever memory and CR3 hold. -/
structure VmmBoot where
  response : LimineResponse
  entries : List LimineMemmapEntry
  early : List PmmOp
  memory : Word → Fin 512 → Word
  cr3 : Word
  memmap : response.memmap = some entries
  bound : EndsBelow52 entries

namespace VmmBoot

variable (boot : VmmBoot)

/-- The PMM and its clients when `vmm_init` is called. -/
def pmmRun : PmmRun := pmmSystem.run (PmmRun.init boot.response) boot.early

/-- The state `vmm_init` leaves. -/
def start : Mm where
  vmm := vmmInit (Vmm.beforeInit boot.pmmRun boot.memory boot.cr3)
  held := boot.pmmRun.outstanding

/-- The PMM is in order when `vmm_init` is called. -/
theorem owned : boot.pmmRun.Owned :=
  pmmSystem.run_induction PmmRun.Owned (fun _ op h _ => owned_step h op)
    (owned_init boot.memmap boot.bound) (pmmSystem_admissible _ _)

end VmmBoot

/-- Order, and frames of clients that are nobody else's. -/
structure Mm.Orderly (m : Mm) : Prop where
  vmm : m.vmm.Orderly
  held : ∀ a ∈ m.held, m.vmm.paging.Foreign a

/-- **A boot leaves order.** -/
theorem VmmBoot.orderly_start (boot : VmmBoot) : boot.start.Orderly := by
  have howned := boot.owned
  have hnone := Vmm.tables_beforeInit boot.pmmRun boot.memory boot.cr3
  have hbefore : (Vmm.beforeInit boot.pmmRun boot.memory boot.cr3).Orderly :=
    ⟨(Vmm.inv_beforeInit howned boot.memory boot.cr3).booked, List.nodup_nil, nofun, nofun,
      fun hne => absurd rfl hne⟩
  have hinit := Vmm.Proceeds.init hbefore
  refine ⟨hinit.orderly, fun a ha => hinit.foreign ⟨howned.aligned a ha, hnone a, fun hfree => ?_⟩⟩
  have hclear : boot.pmmRun.pmm.used (frameOf a) = false := hfree.2.2
  rw [howned.used a ha] at hclear
  cases hclear

namespace Mm.Orderly

variable {m : Mm}

/-- A call that changes the VMM only. -/
theorem proceed (h : m.Orderly) (hv : m.vmm.Proceeds v) :
    ({ m with vmm := v } : Mm).Orderly ∧
      (m.vmm.activeAddressSpacePml4 ≠ 0 → v.activeAddressSpacePml4 ≠ 0) :=
  ⟨⟨hv.orderly, fun a ha => hv.foreign (h.held a ha)⟩, hv.activated⟩

/-- A call that changes the page tables only. -/
theorem steady (h : m.Orderly) (hsteady : m.vmm.paging.Steady paging) :
    (m.setPaging paging).Orderly :=
  (h.proceed (.of_steady h.vmm hsteady m.vmm.validationEpoch m.vmm.kernelPml4
    m.vmm.lastClonedPml4)).1

/-- A client that allocates is given a frame that nobody else has. -/
theorem allocFrame (h : m.Orderly) (image : KernelImage) : (m.step image .allocFrame).Orderly := by
  rcases m.step_allocFrame image h.vmm.booked.sound with heq | ⟨f, hfree, hinstalled, heq⟩
  · rw [heq]
    exact h
  · rw [heq]
    have hreserved := h.steady (.of_reserve h.vmm.booked f)
    refine ⟨hreserved.vmm, fun a ha => ?_⟩
    rcases List.mem_cons.mp ha with rfl | ha
    · exact h.vmm.booked.foreign_reserve hinstalled hfree
    · exact hreserved.held a ha

/-- A client gives its frame back, and only that one. -/
theorem freeFrame (h : m.Orderly) (image : KernelImage) {a : Word} (ha : a ∈ m.held) :
    (m.step image (.freeFrame a)).Orderly := by
  have hforeign := h.held a ha
  refine ⟨⟨h.vmm.booked.free hforeign, h.vmm.nodup, h.vmm.roots, h.vmm.unique, h.vmm.active⟩,
    fun b hb => ?_⟩
  have hne : b ≠ a := by simpa using List.of_mem_filter hb
  exact (h.held b (List.mem_of_mem_filter hb)).free hforeign.1 hne

/-- **Every call keeps order**, and what has been activated stays so. -/
theorem step (h : m.Orderly) (image : KernelImage) {op : MmOp} (hop : m.Permitted op) :
    (m.step image op).Orderly ∧
      (m.vmm.activeAddressSpacePml4 ≠ 0 → (m.step image op).vmm.activeAddressSpacePml4 ≠ 0) := by
  have hbooked := h.vmm.booked
  cases op with
  | createAddressSpace => exact h.proceed (.create h.vmm)
  | createKernelAddressSpace => exact h.proceed (.createKernel h.vmm image)
  | mapPage pml4 va pa flags => exact ⟨h.steady (vmmMapPage_steady hbooked _ _ _ _), id⟩
  | unmapPage pml4 va => exact ⟨h.steady (vmmUnmapPage_steady hbooked _ _), id⟩
  | activate pml4 => exact h.proceed (h.vmm.activate pml4).1
  | prepare =>
      obtain ⟨paging, cloned, heq, hsteady⟩ := vmmPrepareAddressSpace_steady hbooked
      change ({ m with vmm := (vmmPrepareAddressSpace m.vmm).2 } : Mm).Orderly ∧
        (_ → (vmmPrepareAddressSpace m.vmm).2.activeAddressSpacePml4 ≠ 0)
      rw [heq]
      exact h.proceed (.of_steady h.vmm hsteady _ _ _)
  | destroy pml4 => exact h.proceed (.destroy h.vmm pml4)
  | allocFrame => exact ⟨h.allocFrame image, id⟩
  | freeFrame a => exact ⟨h.freeFrame image hop, id⟩
  | store a index value => exact ⟨h.steady (.of_write hbooked a index value), id⟩

end Mm.Orderly

/-! ## The single active address space -/

/-- The records in use that are active, slot by slot. -/
def Vmm.activeSpaces (v : Vmm) : List AddressSpaceRecord :=
  v.addressSpaceRecords.filter fun record => record.inUse && record.state == .active

/-- The address is that of a PML4 with a record in use, which owns itself. -/
def Paging.LiveRoot (s : Paging) (p : Word) : Prop :=
  ∃ record, s.Live record ∧ record.physicalAddress = p ∧ record.level = vmmLevelPml4 ∧
    record.ownerPml4 = p

/-- Something is active: one record says so, it is `active_address_space_pml4`, a live
root, and what CR3 holds. -/
structure Vmm.Activated (v : Vmm) : Prop where
  record : ∃ record, v.activeSpaces = [record] ∧ record.pml4Physical = v.activeAddressSpacePml4
  root : v.paging.LiveRoot v.activeAddressSpacePml4
  cr3 : v.cr3 &&& addressMask = v.activeAddressSpacePml4

namespace Vmm.Orderly

variable {v : Vmm}

/-- In order, a registered PML4 owns itself. -/
theorem liveRoot (h : v.Orderly) {p : Word} (hp : v.paging.IsRoot p) : v.paging.LiveRoot p := by
  obtain ⟨t, ht, hl⟩ := hp
  obtain ⟨record, hlive, haddr, hlevel, howner⟩ := Paging.Inv.live_of_tables ht
  exact ⟨record, hlive, haddr, hlevel.trans hl, howner.trans (h.booked.roots ht hl)⟩

theorem space_of_mem (h : v.Orderly) (hmem : record ∈ v.addressSpaceRecords)
    (hlive : record.inUse = true) :
    v.space record.pml4Physical = some record :=
  SlotRegistry.find_of_mem h.nodup hmem hlive

theorem mem_activeSpaces : record ∈ v.activeSpaces ↔
    record ∈ v.addressSpaceRecords ∧ record.inUse = true ∧ record.state = .active := by
  simp [Vmm.activeSpaces]

/-- **No space is active but the one the VMM names.** -/
theorem pml4_of_mem_activeSpaces (h : v.Orderly) (hmem : record ∈ v.activeSpaces) :
    record.pml4Physical = v.activeAddressSpacePml4 := by
  obtain ⟨hmem, hlive, hstate⟩ := mem_activeSpaces.mp hmem
  exact h.unique (h.space_of_mem hmem hlive) hstate

/-- Active records name one root, and records in use name distinct ones. -/
theorem length_activeSpaces_le (h : v.Orderly) : v.activeSpaces.length ≤ 1 := by
  have hconst : v.activeSpaces.map pml4Physical =
      List.replicate v.activeSpaces.length v.activeAddressSpacePml4 := by
    rw [List.eq_replicate_iff, List.length_map]
    refine ⟨rfl, fun p hp => ?_⟩
    obtain ⟨record, hmem, rfl⟩ := List.mem_map.mp hp
    exact h.pml4_of_mem_activeSpaces hmem
  have hsub : v.activeSpaces.Sublist (v.addressSpaceRecords.filter inUse) := by
    refine List.monotone_filter_right _ fun record hrecord => ?_
    rw [Bool.and_eq_true] at hrecord
    exact hrecord.1
  have hnodup := h.nodup.sublist (hsub.map pml4Physical)
  rw [hconst, List.nodup_replicate] at hnodup
  exact hnodup

/-- The space that the VMM names is active. -/
theorem activated (h : v.Orderly) (hne : v.activeAddressSpacePml4 ≠ 0) : v.Activated := by
  obtain ⟨hcr3, record, hspace, hstate⟩ := h.active hne
  obtain ⟨hmem, hlive, hkey⟩ := find_spec hspace
  have hactive : record ∈ v.activeSpaces := mem_activeSpaces.mpr ⟨hmem, hlive, hstate⟩
  refine ⟨⟨record, ?_, hkey⟩, h.liveRoot (h.roots hspace), hcr3⟩
  obtain ⟨other, hother⟩ := List.length_eq_one_iff.mp
    (le_antisymm h.length_activeSpaces_le (List.length_pos_of_mem hactive))
  rw [hother, List.mem_singleton] at hactive
  rw [hother, hactive]

end Vmm.Orderly

/-- Order holds along every run. -/
theorem Mm.orderly_run (image : KernelImage) {m m' : Mm} (h : m.Orderly)
    (hrun : (vmmSystem image).Reachable m m') : m'.Orderly :=
  hrun.induction Mm.Orderly (fun _ _ horderly hop => (horderly.step image hop).1) h

/-- **A single active address space.**  In every state that calls of `vmm.h` lead to after
`vmm_init`, at most one record in use is active, every record in use names a live root, and
the active root cannot be destroyed.  From the first successful activation on, exactly one
record is active, and it is `active_address_space_pml4`, a live root and what CR3 holds. -/
theorem single_active_address_space (image : KernelImage) (boot : VmmBoot) {m : Mm}
    (h : (vmmSystem image).Reachable boot.start m) :
    m.vmm.activeSpaces.length ≤ 1 ∧
      (∀ record ∈ m.vmm.addressSpaceRecords, record.inUse = true →
        m.vmm.paging.LiveRoot record.pml4Physical) ∧
      (∀ root, (vmmDestroyAddressSpace m.vmm root).1 = 0 →
        root ≠ m.vmm.activeAddressSpacePml4 ∧
          ∀ record ∈ m.vmm.activeSpaces, record.pml4Physical ≠ root) ∧
      ∀ root, (vmmActivateAddressSpace m.vmm root).1 = 0 → ∀ m',
        (vmmSystem image).Reachable ((vmmSystem image).step m (.activate root)) m' →
          m'.vmm.Activated := by
  have horderly := Mm.orderly_run image boot.orderly_start h
  refine ⟨horderly.vmm.length_activeSpaces_le, fun record hmem hlive => ?_, fun root hdestroy => ?_,
    fun root hactivate m' hrun => ?_⟩
  · exact horderly.vmm.liveRoot (horderly.vmm.roots (horderly.vmm.space_of_mem hmem hlive))
  · rcases vmmDestroyAddressSpace_drops horderly.vmm.booked root with
      ⟨paging, epoch, heq, -⟩ | ⟨record, paging, epoch, cloned, hne, -⟩
    · rw [heq] at hdestroy
      cases hdestroy
    · exact ⟨hne, fun record hmem heq =>
        hne (heq.symm.trans (horderly.vmm.pml4_of_mem_activeSpaces hmem))⟩
  · -- from the activation on, something is active
    have hstart : ((vmmSystem image).step m (.activate root)).Orderly :=
      (horderly.step image (show m.Permitted (.activate root) from trivial)).1
    have hfirst : ((vmmSystem image).step m (.activate root)).vmm.activeAddressSpacePml4 ≠ 0 :=
      (horderly.vmm.activate root).2 hactivate
    obtain ⟨horderly', hne⟩ := hrun.induction
      (fun m' => m'.Orderly ∧ m'.vmm.activeAddressSpacePml4 ≠ 0)
      (fun _ _ hm hop => ⟨(hm.1.step image hop).1, (hm.1.step image hop).2 hm.2⟩)
      ⟨hstart, hfirst⟩
    exact horderly'.vmm.activated hne

/-- A boot of the memory subsystem, up to `vmm_init`. -/
def MmBoot.vmmBoot (boot : MmBoot) : VmmBoot :=
  { response := boot.response, entries := boot.entries, early := boot.early, memory := boot.memory,
    cr3 := boot.cr3, memmap := boot.memmap, bound := boot.bound }

/-- A second address space beside the kernel's. -/
def demoSpaces : Mm := (vmmSystem demoImage).step demoBoot.vmmBoot.start .createAddressSpace

theorem demoSpaces_reachable :
    (vmmSystem demoImage).Reachable demoBoot.vmmBoot.start demoSpaces := by
  have hcreate : (vmmSystem demoImage).enabled demoBoot.vmmBoot.start .createAddressSpace := trivial
  rw [demoSpaces]
  exact (TransitionSystem.Reachable.refl _ _).tail _ hcreate

/-- Also after the kernel root has been destroyed. -/
theorem single_active_address_space_demo :
    (vmmActivateAddressSpace demoSpaces.vmm 0x3000).1 = 0 ∧
      ((vmmSystem demoImage).step ((vmmSystem demoImage).step demoSpaces (.activate 0x3000))
        (.destroy (vmmGetPml4 demoSpaces.vmm))).vmm.Activated := by
  have hactivate : (vmmActivateAddressSpace demoSpaces.vmm 0x3000).1 = 0 := by decide +kernel
  have hdestroy : ∀ m root, (vmmSystem demoImage).enabled m (.destroy root) := fun _ _ => trivial
  refine ⟨hactivate, ?_⟩
  exact (single_active_address_space demoImage demoBoot.vmmBoot demoSpaces_reachable).2.2.2
    0x3000 hactivate _ ((TransitionSystem.Reachable.refl _ _).tail _ (hdestroy _ _))

end Batos
