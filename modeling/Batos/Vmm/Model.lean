import Batos.Lib.SlotRegistry
import Batos.Vmm.Entry

/-!
# Page tables of the virtual memory manager

`kernel/mm/vmm/vmm.c` keeps every address space as a tree of page-table frames it
allocates itself, and records each such frame — its level and the PML4 that owns
it — in a registry of 4096 slots.  Three stores change together: the frames
themselves, the registry, and the PMM bitmap below.  `Paging` is exactly these
three; the lifecycle of address spaces, which never touches them directly, is
kept apart in `Vmm/AddressSpace.lean`.

Physical memory is read and written by page-table frame and entry index, which is
how the source uses it (`physical_to_virtual` of a frame, then an array of 512
words).  A function of the source that signals failure by the address `0` returns
`none`; since several of them change state before they fail, the state comes back
in either case.  The recursions over levels are structural, with the loop over
the 512 entries of one table as a separate function that is given the recursive
call.
-/

namespace Batos

/-- `PAGE_TABLE_ENTRIES` in the order the loops visit them. -/
def tableIndices : List (Fin 512) := List.finRange 512

/-- `VMM_MAX_PAGE_TABLES`. -/
def vmmMaxPageTables : ℕ := 4096

/-- `VMM_LEVEL_PT`. -/
abbrev vmmLevelPt : ℕ := 0

/-- `VMM_LEVEL_PD`. -/
abbrev vmmLevelPd : ℕ := 1

/-- `VMM_LEVEL_PDPT`. -/
abbrev vmmLevelPdpt : ℕ := 2

/-- `VMM_LEVEL_PML4`. -/
abbrev vmmLevelPml4 : ℕ := 3

/-- `struct vmm_page_table_record`. -/
structure PageTableRecord where
  physicalAddress : Word := 0
  ownerPml4 : Word := 0
  validationEpoch : Word := 0
  level : ℕ := 0
  inUse : Bool := false
  deriving DecidableEq, Repr

/-- Page-table memory, the registry of page-table frames and the PMM.  The list
of records is `page_table_records` up to `page_table_record_count`. -/
structure Paging where
  pmm : Pmm
  memory : Word → Fin 512 → Word
  records : List PageTableRecord

/-- A store `table[index] = value`. -/
def Paging.write (s : Paging) (table : Word) (index : Fin 512) (value : Word) : Paging :=
  { s with
    memory := Function.update s.memory table (Function.update (s.memory table) index value) }

/-- `zero_page`. -/
def zeroPage (s : Paging) (physical : Word) : Paging :=
  { s with memory := Function.update s.memory physical fun _ => 0 }

/-! ## The registry -/

/-- `find_page_table_record`. -/
def findPageTableRecord (s : Paging) (physicalAddress : Word) : Option PageTableRecord :=
  if physicalAddress = 0 then none
  else SlotRegistry.find PageTableRecord.inUse PageTableRecord.physicalAddress physicalAddress
    s.records

/-- Overwrite the record `find_page_table_record` returns. -/
def Paging.amend (s : Paging) (physicalAddress : Word) (f : PageTableRecord → PageTableRecord) :
    Paging :=
  { s with
    records := SlotRegistry.amend PageTableRecord.inUse PageTableRecord.physicalAddress
      physicalAddress f s.records }

/-- `register_page_table`.  The slot's `validation_epoch` is left as it is. -/
def registerPageTable (s : Paging) (physicalAddress : Word) (level : ℕ) (ownerPml4 : Word) :
    Option Paging :=
  if physicalAddress = 0 then none
  else if vmmLevelPml4 < level then none
  else
    (SlotRegistry.claim PageTableRecord.inUse vmmMaxPageTables {}
      (fun record =>
        { record with
          physicalAddress := physicalAddress
          ownerPml4 := ownerPml4
          level := level
          inUse := true })
      s.records).map fun records => { s with records := records }

/-- `allocate_page_table`. -/
def allocatePageTable (s : Paging) (level : ℕ) (ownerPml4 : Word) : Option Word × Paging :=
  let physical := (pmmAllocFrame s.pmm).1
  let s := { s with pmm := (pmmAllocFrame s.pmm).2 }
  if physical = 0 then (none, s)
  else
    let s := zeroPage s physical
    -- a PML4 is the root owner of its address space
    let ownerPml4 := if level = vmmLevelPml4 ∧ ownerPml4 = 0 then physical else ownerPml4
    match registerPageTable s physical level ownerPml4 with
    | none => (none, { s with pmm := pmmFreeFrame s.pmm physical })
    | some s => (some physical, s)

/-- `verify_page_table_record`: whether it returns `0`. -/
def verifyPageTableRecord (s : Paging) (physicalAddress : Word) (expectedLevel : ℕ)
    (expectedOwnerPml4 : Word) : Bool :=
  match findPageTableRecord s physicalAddress with
  | none => false
  | some record =>
      record.inUse && record.level == expectedLevel && record.ownerPml4 == expectedOwnerPml4

/-- `vmm_verify_page_table_root`: whether it returns `0`. -/
def vmmVerifyPageTableRoot (s : Paging) (pml4Physical : Word) : Bool :=
  if pml4Physical = 0 then false
  else verifyPageTableRecord s pml4Physical vmmLevelPml4 pml4Physical

/-- `verify_existing_child_table`. -/
def verifyExistingChildTable (s : Paging) (entry : Word) (expectedLevel : ℕ) (ownerPml4 : Word) :
    Option Word :=
  if isPresent entry = false then none
  else if isHuge entry then none
  else if verifyPageTableRecord s (entryAddress entry) expectedLevel ownerPml4 then
    some (entryAddress entry)
  else none

/-- `get_or_create_table`; the Boolean is `*created`. -/
def getOrCreateTable (s : Paging) (parent : Word) (index : Fin 512) (flags : Word)
    (childLevel : ℕ) (ownerPml4 : Word) : Option (Word × Bool) × Paging :=
  if isPresent (s.memory parent index) then
    ((verifyExistingChildTable s (s.memory parent index) childLevel ownerPml4).map
      fun child => (child, false), s)
  else
    match allocatePageTable s childLevel ownerPml4 with
    | (none, s) => (none, s)
    | (some child, s) => (some (child, true), s.write parent index (tableEntry child flags))

/-- `release_page_table`.  No caller reads its return value. -/
def releasePageTable (s : Paging) (physicalAddress : Word) : Paging :=
  match findPageTableRecord s physicalAddress with
  | none => s
  | some _ =>
      let s := s.amend physicalAddress fun record => { record with inUse := false }
      { s with pmm := pmmFreeFrame s.pmm physicalAddress }

/-- `rollback_page_table`.  No caller reads its return value. -/
def rollbackPageTable (s : Paging) (parent : Word) (index : Fin 512) (childPhysical : Word) :
    Paging :=
  if parent = 0 ∨ childPhysical = 0 then s
  else if isPresent (s.memory parent index) = false then s
  else if entryAddress (s.memory parent index) ≠ childPhysical then s
  else releasePageTable (s.write parent index 0) childPhysical

/-! ## Mapping, unmapping and translation -/

/-- The rollback of a table this operation created. -/
def rollbackIf (created : Bool) (s : Paging) (parent : Word) (index : Fin 512) (child : Word) :
    Paging :=
  if created then rollbackPageTable s parent index child else s

/-- `vmm_map_page`. -/
def vmmMapPage (s : Paging) (pml4 virtualAddress physicalAddress flags : Word) : ℤ × Paging :=
  if pml4 = 0 then (-1, s)
  else if flags &&& ~~~(vmmWritable ||| vmmUser) ≠ 0 then (-1, s)
  else if vmmVerifyPageTableRoot s pml4 = false then (-1, s)
  else if virtualAddress &&& 0xFFF ≠ 0 then (-1, s)
  else if physicalAddress &&& 0xFFF ≠ 0 then (-1, s)
  else
    match getOrCreateTable s pml4 (pml4Index virtualAddress) flags vmmLevelPdpt pml4 with
    | (none, s) => (-1, s)
    | (some (pdpt, pdptCreated), s) =>
    match getOrCreateTable s pdpt (pdptIndex virtualAddress) flags vmmLevelPd pml4 with
    | (none, s) => (-1, rollbackIf pdptCreated s pml4 (pml4Index virtualAddress) pdpt)
    | (some (pd, pdCreated), s) =>
    match getOrCreateTable s pd (pdIndex virtualAddress) flags vmmLevelPt pml4 with
    | (none, s) =>
        let s := rollbackIf pdCreated s pdpt (pdptIndex virtualAddress) pd
        (-1, rollbackIf pdptCreated s pml4 (pml4Index virtualAddress) pdpt)
    | (some (pt, ptCreated), s) =>
        -- an existing mapping is never overwritten
        if isPresent (s.memory pt (ptIndex virtualAddress)) then
          let s := rollbackIf ptCreated s pd (pdIndex virtualAddress) pt
          let s := rollbackIf pdCreated s pdpt (pdptIndex virtualAddress) pd
          (-1, rollbackIf pdptCreated s pml4 (pml4Index virtualAddress) pdpt)
        else (0, s.write pt (ptIndex virtualAddress) (leafEntry physicalAddress flags))

/-- `vmm_unmap_page`: the frame it reports, or `none` where it returns `-1`. -/
def vmmUnmapPage (s : Paging) (pml4 virtualAddress : Word) : Option Word × Paging :=
  if pml4 = 0 then (none, s)
  else if vmmVerifyPageTableRoot s pml4 = false then (none, s)
  else if virtualAddress &&& 0xFFF ≠ 0 then (none, s)
  else
    match verifyExistingChildTable s (s.memory pml4 (pml4Index virtualAddress)) vmmLevelPdpt
      pml4 with
    | none => (none, s)
    | some pdpt =>
    match verifyExistingChildTable s (s.memory pdpt (pdptIndex virtualAddress)) vmmLevelPd
      pml4 with
    | none => (none, s)
    | some pd =>
    match verifyExistingChildTable s (s.memory pd (pdIndex virtualAddress)) vmmLevelPt pml4 with
    | none => (none, s)
    | some pt =>
        let pte := s.memory pt (ptIndex virtualAddress)
        if isPresent pte = false then (none, s)
        else (some (entryAddress pte), s.write pt (ptIndex virtualAddress) 0)

/-- The walk `vmm_translate` and `vmm_inspect_mapping` share; they differ in what
they report about a 1 GiB leaf, a 2 MiB leaf and a page. -/
def walkPageTables {α : Type} (s : Paging) (pml4 virtualAddress : Word)
    (onPdpte onPde onPte : Word → α) : Option α :=
  if pml4 = 0 then none
  else if vmmVerifyPageTableRoot s pml4 = false then none
  else
    let pml4Entry := s.memory pml4 (pml4Index virtualAddress)
    if isPresent pml4Entry = false then none
    else if isHuge pml4Entry then none
    else
      match verifyExistingChildTable s pml4Entry vmmLevelPdpt pml4 with
      | none => none
      | some pdpt =>
          let pdptEntry := s.memory pdpt (pdptIndex virtualAddress)
          if isPresent pdptEntry = false then none
          -- a huge PDPTE is a 1 GiB leaf
          else if isHuge pdptEntry then some (onPdpte pdptEntry)
          else
            match verifyExistingChildTable s pdptEntry vmmLevelPd pml4 with
            | none => none
            | some pd =>
                let pdEntry := s.memory pd (pdIndex virtualAddress)
                if isPresent pdEntry = false then none
                -- a huge PDE is a 2 MiB leaf
                else if isHuge pdEntry then some (onPde pdEntry)
                else
                  match verifyExistingChildTable s pdEntry vmmLevelPt pml4 with
                  | none => none
                  | some pt =>
                      let pte := s.memory pt (ptIndex virtualAddress)
                      if isPresent pte = false then none else some (onPte pte)

/-- `vmm_translate`. -/
def vmmTranslate (s : Paging) (pml4 virtualAddress : Word) : Option Word :=
  walkPageTables s pml4 virtualAddress
    (fun pdpte => entryAddress pdpte ||| (virtualAddress &&& 0x3FFFFFFF))
    (fun pde => entryAddress pde ||| (virtualAddress &&& 0x1FFFFF))
    (fun pte => entryAddress pte ||| (virtualAddress &&& 0xFFF))

/-- `vmm_inspect_mapping`: the physical address and the flags.  For a 4 KiB page
the address is that of the frame, without the page offset. -/
def vmmInspectMapping (s : Paging) (pml4 virtualAddress : Word) : Option (Word × Word) :=
  walkPageTables s pml4 virtualAddress
    (fun pdpte => (entryAddress pdpte ||| (virtualAddress &&& 0x3FFFFFFF),
      pdpte &&& (vmmPresent ||| vmmWritable ||| vmmUser ||| vmmHuge)))
    (fun pde => (entryAddress pde ||| (virtualAddress &&& 0x1FFFFF),
      pde &&& (vmmPresent ||| vmmWritable ||| vmmUser ||| vmmHuge)))
    (fun pte => (entryAddress pte, pte &&& (vmmPresent ||| vmmWritable ||| vmmUser)))

/-! ## Whole trees -/

/-- One turn of the loops of `destroy_address_space_tree` and
`discard_page_table_tree`: clear a present entry, and reclaim the table it pointed
to unless it is a huge leaf. -/
def releaseEntry (recur : Paging → Word → Paging) (table : Word) (s : Paging) (index : Fin 512) :
    Paging :=
  let entry := s.memory table index
  if isPresent entry = false then s
  else if isHuge entry then s.write table index 0
  else recur (s.write table index 0) (entryAddress entry)

/-- The body the two reclaiming functions share; `skipZero` is the one check only
`discard_page_table_tree` makes. -/
def releaseTree (skipZero : Bool) : (level : ℕ) → Paging → Word → Paging
  | 0, s, physical =>
      if skipZero ∧ physical = 0 then s else releasePageTable s physical
  | level + 1, s, physical =>
      if skipZero ∧ physical = 0 then s
      else
        releasePageTable
          (tableIndices.foldl (releaseEntry (releaseTree skipZero level) physical) s) physical

/-- `destroy_address_space_tree`. -/
def destroyAddressSpaceTree (level : ℕ) (s : Paging) (physical : Word) : Paging :=
  releaseTree false level s physical

/-- `discard_page_table_tree`. -/
def discardPageTableTree (level : ℕ) (s : Paging) (physical : Word) : Paging :=
  releaseTree true level s physical

/-- The loop of `validate_address_space_tree` over the entries of one table. -/
def validateEntries (level : ℕ) (recur : Paging → Word → Bool × Paging) (table : Word) :
    List (Fin 512) → Paging → Bool × Paging
  | [], s => (true, s)
  | index :: rest, s =>
      let entry := s.memory table index
      if isPresent entry = false then validateEntries level recur table rest s
      else if isHuge entry then
        if level = vmmLevelPml4 then (false, s) else validateEntries level recur table rest s
      else
        match recur s (entryAddress entry) with
        | (false, s) => (false, s)
        | (true, s) => validateEntries level recur table rest s

/-- One level of `validate_address_space_tree`.  A record already stamped with the
epoch is a second reference to the same table. -/
def validateTable (level : ℕ) (recur : Paging → Word → Bool × Paging) (s : Paging)
    (physical ownerPml4 epoch : Word) : Bool × Paging :=
  if physical = 0 then (false, s)
  else
    match findPageTableRecord s physical with
    | none => (false, s)
    | some record =>
        if record.inUse = false ∨ record.level ≠ level ∨ record.ownerPml4 ≠ ownerPml4 then
          (false, s)
        else if record.validationEpoch = epoch then (false, s)
        else
          let s := s.amend physical fun record => { record with validationEpoch := epoch }
          if level = vmmLevelPt then (true, s)
          else validateEntries level recur physical tableIndices s

/-- `validate_address_space_tree`: whether it returns `0`. -/
def validateAddressSpaceTree : (level : ℕ) → Paging → (physical ownerPml4 epoch : Word) →
    Bool × Paging
  | 0, s, physical, ownerPml4, epoch =>
      -- a PT has no child tables
      validateTable 0 (fun s _ => (false, s)) s physical ownerPml4 epoch
  | level + 1, s, physical, ownerPml4, epoch =>
      validateTable (level + 1)
        (fun s child => validateAddressSpaceTree level s child ownerPml4 epoch) s physical
        ownerPml4 epoch

/-- The loop `clone_page_table` and `copy_page_table_subtree` share: leaves are
copied, child tables are copied recursively.  The Boolean is `false` when a child
could not be copied. -/
def copyEntries (level : ℕ) (recur : Paging → Word → Option Word × Paging)
    (source destination : Word) : List (Fin 512) → Paging → Bool × Paging
  | [], s => (true, s)
  | index :: rest, s =>
      let entry := s.memory source index
      if isPresent entry = false then copyEntries level recur source destination rest s
      else if level = vmmLevelPt ∨ isHuge entry = true then
        copyEntries level recur source destination rest (s.write destination index entry)
      else
        match recur s (entryAddress entry) with
        | (none, s) => (false, s)
        | (some child, s) =>
            copyEntries level recur source destination rest
              (s.write destination index (copiedEntry child entry))

/-- The end of both functions: keep the copy, or discard what there is of it. -/
def finishCopy (level : ℕ) (destination : Word) : Bool × Paging → Option Word × Paging
  | (true, s) => (some destination, s)
  | (false, s) => (none, discardPageTableTree level s destination)

/-- One level of `clone_page_table`. -/
def cloneTable (level : ℕ) (recur : Word → Paging → Word → Option Word × Paging) (s : Paging)
    (source ownerPml4 : Word) : Option Word × Paging :=
  if source = 0 then (none, s)
  else if vmmLevelPml4 < level then (none, s)
  else
    match allocatePageTable s level ownerPml4 with
    | (none, s) => (none, s)
    | (some destination, s) =>
        -- the new PML4 becomes the root owner of the standalone clone
        let cloneOwnerPml4 := if level = vmmLevelPml4 then destination else ownerPml4
        match findPageTableRecord s destination with
        | none => (none, discardPageTableTree level s destination)
        | some _ =>
            let s := s.amend destination fun record =>
              { record with ownerPml4 := cloneOwnerPml4 }
            finishCopy level destination
              (copyEntries level (recur cloneOwnerPml4) source destination tableIndices s)

/-- `clone_page_table`. -/
def clonePageTable : (level : ℕ) → (ownerPml4 : Word) → Paging → (source : Word) →
    Option Word × Paging
  | 0, ownerPml4, s, source => cloneTable 0 (fun _ s _ => (none, s)) s source ownerPml4
  | level + 1, ownerPml4, s, source =>
      cloneTable (level + 1) (clonePageTable level) s source ownerPml4

/-- One level of `copy_page_table_subtree`. -/
def copyTable (level : ℕ) (recur : Paging → Word → Option Word × Paging) (s : Paging)
    (source ownerPml4 : Word) : Option Word × Paging :=
  if source = 0 ∨ ownerPml4 = 0 then (none, s)
  else if vmmLevelPdpt < level then (none, s)
  else
    match allocatePageTable s level ownerPml4 with
    | (none, s) => (none, s)
    | (some destination, s) =>
        finishCopy level destination
          (copyEntries level recur source destination tableIndices s)

/-- `copy_page_table_subtree`. -/
def copyPageTableSubtree : (level : ℕ) → (ownerPml4 : Word) → Paging → (source : Word) →
    Option Word × Paging
  | 0, ownerPml4, s, source => copyTable 0 (fun s _ => (none, s)) s source ownerPml4
  | level + 1, ownerPml4, s, source =>
      copyTable (level + 1) (copyPageTableSubtree level ownerPml4) s source ownerPml4

end Batos
