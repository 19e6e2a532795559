import Batos.Vmm.Model

/-!
# Address spaces

The lifecycle half of `vmm.c`: which PML4 roots are address spaces, which one is
loaded in CR3, and the operations that build or destroy a whole space.  The state
adds the remaining static variables of `vmm.c`, and the CR3 register, to the page
tables of `Vmm/Model.lean`.

The boundaries of the kernel image come from the loader and the linker script;
they are the parameter `KernelImage`.
-/

namespace Batos

/-- `VMM_MAX_ADDRESS_SPACES`. -/
def vmmMaxAddressSpaces : ℕ := 256

/-- `VMM_ADDRESS_SPACE_CREATED`, `_ACTIVE` and `_INACTIVE`. -/
inductive AddressSpaceState
  | created
  | active
  | inactive
  deriving DecidableEq, Repr

/-- `struct vmm_address_space_record`. -/
structure AddressSpaceRecord where
  pml4Physical : Word := 0
  state : AddressSpaceState := .created
  inUse : Bool := false
  deriving DecidableEq, Repr

/-- What `boot.c` reports about the kernel image. -/
structure KernelImage where
  virtualBase : Word
  physicalBase : Word
  imageSize : Word
  textStart : Word
  textEnd : Word
  rodataStart : Word
  rodataEnd : Word
  dataStart : Word
  dataEnd : Word
  bssStart : Word
  bssEnd : Word
  deriving DecidableEq, Repr

/-- The static variables of `vmm.c` and the CR3 register. -/
structure Vmm where
  paging : Paging
  validationEpoch : Word := 0
  kernelPml4 : Word := 0
  lastClonedPml4 : Word := 0
  addressSpaceRecords : List AddressSpaceRecord := []
  activeAddressSpacePml4 : Word := 0
  cr3 : Word

/-! ## Records -/

/-- `find_address_space_record`. -/
def findAddressSpaceRecord (v : Vmm) (pml4Physical : Word) : Option AddressSpaceRecord :=
  if pml4Physical = 0 then none
  else SlotRegistry.find AddressSpaceRecord.inUse AddressSpaceRecord.pml4Physical pml4Physical
    v.addressSpaceRecords

/-- Overwrite the record `find_address_space_record` returns. -/
def Vmm.amendSpace (v : Vmm) (pml4Physical : Word)
    (f : AddressSpaceRecord → AddressSpaceRecord) : Vmm :=
  { v with
    addressSpaceRecords := SlotRegistry.amend AddressSpaceRecord.inUse
      AddressSpaceRecord.pml4Physical pml4Physical f v.addressSpaceRecords }

/-- `register_address_space`. -/
def registerAddressSpace (v : Vmm) (pml4Physical : Word) : Option Vmm :=
  if pml4Physical = 0 then none
  else if (findAddressSpaceRecord v pml4Physical).isSome then none
  else
    (SlotRegistry.claim AddressSpaceRecord.inUse vmmMaxAddressSpaces {}
      (fun _ => { pml4Physical := pml4Physical, state := .created, inUse := true })
      v.addressSpaceRecords).map fun records => { v with addressSpaceRecords := records }

/-! ## Destruction -/

/-- The start of a structural-validation epoch; a wrapped epoch is cleared from
all records before reuse. -/
def nextEpoch (v : Vmm) : Vmm :=
  let v := { v with validationEpoch := v.validationEpoch + 1 }
  if v.validationEpoch = 0 then
    { v with
      validationEpoch := 1
      paging :=
        { v.paging with
          records := v.paging.records.map fun record => { record with validationEpoch := 0 } } }
  else v

/-- `vmm_destroy_address_space`. -/
def vmmDestroyAddressSpace (v : Vmm) (pml4Physical : Word) : ℤ × Vmm :=
  if pml4Physical = 0 then (-1, v)
  else if pml4Physical = v.activeAddressSpacePml4 then (-1, v)
  else
    match findAddressSpaceRecord v pml4Physical with
    | none => (-1, v)
    | some record =>
        if record.state = .active then (-1, v)
        else if vmmVerifyPageTableRoot v.paging pml4Physical = false then (-1, v)
        else
          let v := nextEpoch v
          match validateAddressSpaceTree vmmLevelPml4 v.paging pml4Physical pml4Physical
            v.validationEpoch with
          | (false, paging) => (-1, { v with paging := paging })
          | (true, paging) =>
              let v := { v with
                paging := destroyAddressSpaceTree vmmLevelPml4 paging pml4Physical }
              let v := v.amendSpace pml4Physical fun record =>
                { record with state := .inactive, inUse := false }
              (0, if v.lastClonedPml4 = pml4Physical then { v with lastClonedPml4 := 0 } else v)

/-! ## Creation -/

/-- `vmm_create_address_space`. -/
def vmmCreateAddressSpace (v : Vmm) : Option Word × Vmm :=
  match allocatePageTable v.paging vmmLevelPml4 0 with
  | (none, paging) => (none, { v with paging := paging })
  | (some pml4Physical, paging) =>
      let v := { v with paging := paging }
      match registerAddressSpace v pml4Physical with
      | none => (none, { v with paging := releasePageTable v.paging pml4Physical })
      | some v => (some pml4Physical, v)

/-- `vmm_init`. -/
def vmmInit (v : Vmm) : Vmm :=
  let (pml4, v) := vmmCreateAddressSpace v
  { v with kernelPml4 := pml4.getD 0, lastClonedPml4 := 0 }

/-- `vmm_get_pml4`. -/
def vmmGetPml4 (v : Vmm) : Word := v.kernelPml4

/-- `vmm_get_address_space_state`; `none` stands for -1. -/
def vmmGetAddressSpaceState (v : Vmm) (pml4Physical : Word) : Option AddressSpaceState :=
  (findAddressSpaceRecord v pml4Physical).map AddressSpaceRecord.state

/-- `vmm_get_last_cloned_pml4`. -/
def vmmGetLastClonedPml4 (v : Vmm) : Word := v.lastClonedPml4

/-- The loop of `map_kernel_section`, over the pages that are left. -/
def mapKernelPages (pml4Physical virtualBase physicalBase flags : Word) :
    (pages : ℕ) → (virtualAddress : Word) → Paging → ℤ × Paging
  | 0, _, s => (0, s)
  | pages + 1, virtualAddress, s =>
      let offset := virtualAddress - virtualBase
      if 0xFFFFFFFFFFFFFFFF - physicalBase < offset then (-1, s)
      else
        match vmmMapPage s pml4Physical virtualAddress (physicalBase + offset) flags with
        | (code, s) =>
            if code ≠ 0 then (-1, s)
            else
              mapKernelPages pml4Physical virtualBase physicalBase flags pages
                (virtualAddress + 0x1000) s

/-- `map_kernel_section`.  Both ends are page aligned and the first is below the
second, so the loop makes one turn per page between them. -/
def mapKernelSection (s : Paging)
    (pml4Physical virtualBase physicalBase imageEnd sectionStart sectionEnd flags : Word) :
    ℤ × Paging :=
  if sectionEnd ≤ sectionStart then (0, s)
  else if sectionStart < virtualBase ∨ imageEnd < sectionEnd then (-1, s)
  else
    let start := sectionStart &&& ~~~0xFFF
    let stop := (sectionEnd + 0xFFF) &&& ~~~0xFFF
    if stop < sectionEnd ∨ imageEnd < stop then (-1, s)
    else
      mapKernelPages pml4Physical virtualBase physicalBase flags
        ((stop.toNat - start.toNat) / 4096) start s

/-- Map sections one after the other, up to the first failure. -/
def mapKernelSections (pml4Physical virtualBase physicalBase imageEnd : Word) :
    List (Word × Word × Word) → Paging → ℤ × Paging
  | [], s => (0, s)
  | (sectionStart, sectionEnd, flags) :: rest, s =>
      match mapKernelSection s pml4Physical virtualBase physicalBase imageEnd sectionStart
        sectionEnd flags with
      | (code, s) =>
          if code ≠ 0 then (-1, s)
          else mapKernelSections pml4Physical virtualBase physicalBase imageEnd rest s

/-- The sections of the kernel image with their leaf flags.  `.limine_requests`,
in front of the text, stays supervisor-writable. -/
def KernelImage.sections (image : KernelImage) : List (Word × Word × Word) :=
  [(image.virtualBase, image.textStart, vmmWritable),
    (image.textStart, image.textEnd, 0),
    (image.rodataStart, image.rodataEnd, 0),
    (image.dataStart, image.dataEnd, vmmWritable),
    (image.bssStart, image.bssEnd, vmmWritable)]

/-- `vmm_create_kernel_address_space`. -/
def vmmCreateKernelAddressSpace (image : KernelImage) (v : Vmm) : Option Word × Vmm :=
  let maxWord : Word := 0xFFFFFFFFFFFFFFFF
  if image.virtualBase = 0 ∨ image.physicalBase = 0 ∨ image.imageSize = 0 then (none, v)
  else if image.virtualBase &&& 0xFFF ≠ 0 ∨ image.physicalBase &&& 0xFFF ≠ 0 then (none, v)
  else if maxWord - image.virtualBase < image.imageSize then (none, v)
  else
    let imageEnd := image.virtualBase + image.imageSize
    if maxWord - 0xFFF < imageEnd then (none, v)
    else
      let imageMappingEnd := (imageEnd + 0xFFF) &&& ~~~0xFFF
      if imageMappingEnd < imageEnd then (none, v)
      else
        match vmmCreateAddressSpace v with
        | (none, v) => (none, v)
        | (some pml4Physical, v) =>
            match mapKernelSections pml4Physical image.virtualBase image.physicalBase
              imageMappingEnd image.sections v.paging with
            | (code, paging) =>
                let v := { v with paging := paging }
                if code ≠ 0 then (none, (vmmDestroyAddressSpace v pml4Physical).2)
                else (some pml4Physical, v)

/-! ## Activation -/

/-- `vmm_activate_address_space`. -/
def vmmActivateAddressSpace (v : Vmm) (pml4Physical : Word) : ℤ × Vmm :=
  if pml4Physical = 0 then (-1, v)
  else
    match findAddressSpaceRecord v pml4Physical with
    | none => (-1, v)
    | some target =>
        if vmmVerifyPageTableRoot v.paging pml4Physical = false then (-1, v)
        else if v.activeAddressSpacePml4 = pml4Physical ∧ target.state = .active then (0, v)
        else
          let v := { v with cr3 := pml4Physical }
          if v.cr3 &&& addressMask ≠ pml4Physical then (-1, v)
          else
            let v :=
              if v.activeAddressSpacePml4 ≠ 0 ∧ v.activeAddressSpacePml4 ≠ pml4Physical then
                v.amendSpace v.activeAddressSpacePml4 fun record =>
                  { record with state := .inactive }
              else v
            let v := v.amendSpace pml4Physical fun record => { record with state := .active }
            (0, { v with activeAddressSpacePml4 := pml4Physical })

/-! ## Preparation -/

/-- The rollback of `vmm_prepare_address_space`: discard every temporary subtree,
then the standalone clone. -/
def discardRoots (roots : Fin 512 → Word) (clonedPml4 : Word) (s : Paging) : Paging :=
  discardPageTableTree vmmLevelPml4
    (tableIndices.foldl
      (fun s index =>
        if roots index = 0 then s else discardPageTableTree vmmLevelPdpt s (roots index))
      s)
    clonedPml4

/-- The loop of `vmm_prepare_address_space` that builds every missing subtree of
the kernel root without publishing it; `none` after a rollback. -/
def buildRoots (kernelPml4 source clonedPml4 : Word) :
    List (Fin 512) → (Fin 512 → Word) → Paging → Option (Fin 512 → Word) × Paging
  | [], roots, s => (some roots, s)
  | index :: rest, roots, s =>
      if isPresent (s.memory kernelPml4 index) then
        buildRoots kernelPml4 source clonedPml4 rest roots s
      else
        let sourceEntry := s.memory source index
        if isPresent sourceEntry = false then
          buildRoots kernelPml4 source clonedPml4 rest roots s
        else if isHuge sourceEntry then (none, discardRoots roots clonedPml4 s)
        else
          match copyPageTableSubtree vmmLevelPdpt kernelPml4 s (entryAddress sourceEntry) with
          | (none, s) => (none, discardRoots roots clonedPml4 s)
          | (some child, s) =>
              buildRoots kernelPml4 source clonedPml4 rest (Function.update roots index child) s

/-- The loop that publishes the new subtrees in the kernel root. -/
def publishRoots (kernelPml4 source : Word) (roots : Fin 512 → Word) (s : Paging) : Paging :=
  tableIndices.foldl
    (fun s index =>
      if roots index = 0 then s
      else s.write kernelPml4 index (copiedEntry (roots index) (s.memory source index)))
    s

/-- `vmm_prepare_address_space`. -/
def vmmPrepareAddressSpace (v : Vmm) : ℤ × Vmm :=
  if v.kernelPml4 = 0 then (-1, v)
  else
    let currentPml4 := v.cr3 &&& addressMask
    if currentPml4 = 0 then (-1, v)
    else if currentPml4 = v.kernelPml4 then (0, v)
    else
      match clonePageTable vmmLevelPml4 0 v.paging currentPml4 with
      | (none, paging) => (-1, { v with paging := paging })
      | (some clonedPml4, paging) =>
          match buildRoots v.kernelPml4 currentPml4 clonedPml4 tableIndices (fun _ => 0)
            paging with
          | (none, paging) => (-1, { v with paging := paging })
          | (some roots, paging) =>
              (0, { v with
                paging := publishRoots v.kernelPml4 currentPml4 roots paging
                lastClonedPml4 := clonedPml4 })

end Batos
