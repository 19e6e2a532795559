import Batos.Pmm.Model

/-!
# ACPI tables

The part of `acpi.c` that reads the MADT, the table in which the firmware lists the interrupt
controllers.  Tables lie somewhere in physical memory; the kernel reads them through the HHDM, a
window in which all of physical memory is visible from `pmm_get_hhdm_offset()` on.

Memory is a partial function: a read of a byte that is not there does not return.  A call whose
result is `none` has made such a read, or has not come to an end within the rounds a table of its
length has room for.

The fields of the packed structures are read by their offsets, the least significant byte first.
-/

namespace Batos

open BitVec (ofNat)

/-- What `acpi.c` works on: the answer to the memory map request, `NULL` being `none`, the
offset of the HHDM, and the bytes of physical memory. -/
structure AcpiMemory where
  memmap : Option (List LimineMemmapEntry)
  hhdmOffset : Word
  physical : Word → Option (BitVec 8)

/-- Four bytes, the least significant one first. -/
def le32 (b₀ b₁ b₂ b₃ : BitVec 8) : BitVec 32 := b₃ ++ b₂ ++ b₁ ++ b₀

/-- Two bytes, the least significant one first. -/
def le16 (b₀ b₁ : BitVec 8) : BitVec 16 := b₁ ++ b₀

namespace AcpiMemory

/-- The `uint8_t` at an offset from a pointer into the HHDM. -/
def u8 (mem : AcpiMemory) (pointer : Word) (offset : ℕ) : Option (BitVec 8) :=
  mem.physical (pointer + ofNat 64 offset - mem.hhdmOffset)

/-- The `uint16_t` at an offset. -/
def u16 (mem : AcpiMemory) (pointer : Word) (offset : ℕ) : Option (BitVec 16) := do
  let b₀ ← mem.u8 pointer offset
  let b₁ ← mem.u8 pointer (offset + 1)
  return le16 b₀ b₁

/-- The `uint32_t` at an offset. -/
def u32 (mem : AcpiMemory) (pointer : Word) (offset : ℕ) : Option (BitVec 32) := do
  let b₀ ← mem.u8 pointer offset
  let b₁ ← mem.u8 pointer (offset + 1)
  let b₂ ← mem.u8 pointer (offset + 2)
  let b₃ ← mem.u8 pointer (offset + 3)
  return le32 b₀ b₁ b₂ b₃

end AcpiMemory

/-! ## Ranges -/

/-- `pmm_is_physical_range_valid`. -/
def pmmIsPhysicalRangeValid (memmap : Option (List LimineMemmapEntry))
    (physical length : Word) : Bool :=
  if length = 0 then false
  else
    match memmap with
    | none => false
    | some entries =>
        if physical > -1 - length then false
        else entries.any fun entry =>
          -- entries that are empty or wrap around are skipped
          entry.length ≠ 0 && entry.base + entry.length < 2 ^ 64 &&
            entry.base ≤ physical.toNat && (physical + length).toNat ≤ entry.base + entry.length

/-- `acpi_phys_to_virt`; 0 is a null pointer. -/
def acpiPhysToVirt (mem : AcpiMemory) (physical length : Word) : Word :=
  if pmmIsPhysicalRangeValid mem.memmap physical length = false then 0
  else if physical > -1 - mem.hhdmOffset then 0
  else if length > -1 - physical then 0
  else if physical + length - 1 > -1 - mem.hhdmOffset then 0
  else physical + mem.hhdmOffset

/-! ## Validation -/

/-- `sizeof(struct acpi_sdt_header)`. -/
def sdtHeaderSize : ℕ := 36

/-- `acpi_checksum`. -/
def acpiChecksum (mem : AcpiMemory) (data : Word) (length : ℕ) : Option (BitVec 8) :=
  (List.range length).foldlM (fun sum i => (mem.u8 data i).map (sum + ·)) 0

/-- `acpi_validate_sdt`. -/
def acpiValidateSdt (mem : AcpiMemory) (physicalAddress header : Word) : Option ℤ :=
  if header = 0 then some (-1)
  else if pmmIsPhysicalRangeValid mem.memmap physicalAddress (ofNat 64 sdtHeaderSize) = false then
    some (-2)
  else do
    let length ← mem.u32 header 4
    if length.toNat < sdtHeaderSize then return -3
    if pmmIsPhysicalRangeValid mem.memmap physicalAddress (length.setWidth 64) = false then
      return -4
    let sum ← acpiChecksum mem header length.toNat
    if sum ≠ 0 then return -5
    return 0

/-! ## The MADT -/

/-- `struct acpi_madt_local_apic`. -/
structure MadtLocalApic where
  processorUid : BitVec 8
  apicId : BitVec 8
  flags : BitVec 32
  deriving DecidableEq, Repr

/-- `struct acpi_madt_io_apic`. -/
structure MadtIoApic where
  id : BitVec 8
  address : Word
  gsiBase : BitVec 32
  deriving DecidableEq, Repr

/-- `struct acpi_madt_iso`, an interrupt source override. -/
structure MadtIso where
  bus : BitVec 8
  source : BitVec 8
  gsi : BitVec 32
  flags : BitVec 16
  deriving DecidableEq, Repr

/-- The variables `acpi_parse_madt` fills; each list is the array up to its count. -/
structure Madt where
  localApicAddress : BitVec 32 := 0
  flags : BitVec 32 := 0
  localApics : List MadtLocalApic := []
  ioApics : List MadtIoApic := []
  isos : List MadtIso := []
  unknownEntryCount : BitVec 32 := 0
  deriving DecidableEq, Repr

/-- `ACPI_MAX_MADT_LOCAL_APICS`. -/
def acpiMaxMadtLocalApics : ℕ := 256

/-- `ACPI_MAX_MADT_IO_APICS`. -/
def acpiMaxMadtIoApics : ℕ := 256

/-- `ACPI_MAX_MADT_ISOS`. -/
def acpiMaxMadtIsos : ℕ := 256

/-- `sizeof(struct acpi_madt_header)`. -/
def madtHeaderSize : ℕ := 44

/-- `ACPI_MADT_TYPE_LOCAL_APIC`. -/
def madtTypeLocalApic : BitVec 8 := 0

/-- `ACPI_MADT_TYPE_IO_APIC`. -/
def madtTypeIoApic : BitVec 8 := 1

/-- `ACPI_MADT_TYPE_ISO`. -/
def madtTypeIso : BitVec 8 := 2

/-- The branch of `acpi_parse_madt` for an entry of a known type: the size of its structure, the
codes it returns, and how many entries there are and may be. -/
def acpiRecordEntry (mem : AcpiMemory) (entryPhysical : Word) (length : BitVec 8) (size : ℕ)
    (short full unmapped : ℤ) (count max : ℕ) (read : Word → Option Madt) :
    Option (Except ℤ Madt) :=
  if length.toNat < size then some (.error short)
  else if max ≤ count then some (.error full)
  else if acpiPhysToVirt mem entryPhysical (ofNat 64 size) = 0 then some (.error unmapped)
  else (read (acpiPhysToVirt mem entryPhysical (ofNat 64 size))).map .ok

/-- What one entry does to the lists. -/
def acpiParseMadtEntry (mem : AcpiMemory) (entryPhysical : Word)
    (type length : BitVec 8) (m : Madt) :
    Option (Except ℤ Madt) :=
  if type = madtTypeLocalApic then
    acpiRecordEntry mem entryPhysical length 8 (-9) (-10) (-11) m.localApics.length
        acpiMaxMadtLocalApics fun entry => do
      let processorUid ← mem.u8 entry 2
      let apicId ← mem.u8 entry 3
      let flags ← mem.u32 entry 4
      return { m with localApics := m.localApics ++ [⟨processorUid, apicId, flags⟩] }
  else if type = madtTypeIoApic then
    acpiRecordEntry mem entryPhysical length 12 (-12) (-13) (-14) m.ioApics.length
      acpiMaxMadtIoApics fun entry => do
      let id ← mem.u8 entry 2
      let address ← mem.u32 entry 4
      let gsiBase ← mem.u32 entry 8
      return { m with ioApics := m.ioApics ++ [⟨id, address.setWidth 64, gsiBase⟩] }
  else if type = madtTypeIso then
    acpiRecordEntry mem entryPhysical length 10 (-15) (-16) (-17) m.isos.length acpiMaxMadtIsos
      fun entry => do
      let bus ← mem.u8 entry 2
      let source ← mem.u8 entry 3
      let gsi ← mem.u32 entry 4
      let flags ← mem.u16 entry 8
      return { m with isos := m.isos ++ [⟨bus, source, gsi, flags⟩] }
  else some (.ok { m with unknownEntryCount := m.unknownEntryCount + 1 })

/-- The loop of `acpi_parse_madt` over the entries. -/
def acpiParseMadtEntries (mem : AcpiMemory) (tableEnd : Word) : ℕ → Word → Madt → Option (ℤ × Madt)
  | 0, _, _ => none
  | rounds + 1, entryPhysical, m =>
      if entryPhysical < tableEnd then
        if entryPhysical > tableEnd - 2 then some (-4, m)
        else if acpiPhysToVirt mem entryPhysical 2 = 0 then some (-5, m)
        else do
          let type ← mem.u8 (acpiPhysToVirt mem entryPhysical 2) 0
          let length ← mem.u8 (acpiPhysToVirt mem entryPhysical 2) 1
          if length = 0 then return (-6, m)
          if length.toNat < 2 then return (-7, m)
          if length.setWidth 64 > tableEnd - entryPhysical then return (-8, m)
          match ← acpiParseMadtEntry mem entryPhysical type length m with
          | .error code => return (code, m)
          | .ok m => acpiParseMadtEntries mem tableEnd rounds (entryPhysical + length.setWidth 64) m
      else if entryPhysical ≠ tableEnd then some (-18, m)
      else some (0, m)

/-- `acpi_parse_madt`. -/
def acpiParseMadt (mem : AcpiMemory) (physicalAddress : Word) (m : Madt) : Option (ℤ × Madt) :=
  let madt := acpiPhysToVirt mem physicalAddress (ofNat 64 madtHeaderSize)
  if madt = 0 then some (-1, m)
  else do
    let length ← mem.u32 madt 4
    if length.toNat < madtHeaderSize then return (-2, m)
    let tableLength : Word := length.setWidth 64
    if physicalAddress > -1 - tableLength then return (-3, m)
    let localApicAddress ← mem.u32 madt 36
    let flags ← mem.u32 madt 40
    acpiParseMadtEntries mem (physicalAddress + tableLength) length.toNat
      (physicalAddress + ofNat 64 madtHeaderSize) { localApicAddress, flags }

end Batos
