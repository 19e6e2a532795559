import Batos.Acpi.Format

/-!
# Parsing the MADT

`acpi_parse_madt` walks through a table entry by entry, with a cursor that the entries
themselves move on. Every entry could move it past the end of the table, or not at all, and
every read goes through the HHDM and the memory map.

In a table that `acpi_validate_sdt` accepts, all reads succeed and the loop is
`TaggedRecord.consume` on the bytes of the table (`acpiParseMadtEntries_eq`).  So the parser
accepts the format of the MADT and nothing else, and records what the entries say
(`acpiParseMadt_exact`).  As the loop is determined by the bytes of the table, it does the
same in a memory of which nothing else can be read.

Every valid sequence of entries is the contents of a table that is accepted: `madtTable`
completes it to one (`madtTable_validated`).
-/

namespace Batos

open List BitVec Option
open TaggedRecord (consume consume_eq_none_iff consume_nil encode isUnknown)

variable {rounds : ℕ} {entries : List TaggedRecord}

/-! ## Tables in memory -/

/-- `pmm_is_physical_range_valid`: the range is not empty, and lies within one entry of the
memory map. -/
theorem pmmIsPhysicalRangeValid_iff {memmap : Option (List LimineMemmapEntry)}
    {physical length : Word} :
    pmmIsPhysicalRangeValid memmap physical length = true ↔
      0 < length.toNat ∧ ∃ entries entry, memmap = some entries ∧ entry ∈ entries ∧
        entry.base + entry.length < 2 ^ 64 ∧ entry.base ≤ physical.toNat ∧
        physical.toNat + length.toNat ≤ entry.base + entry.length := by
  have hphysical := physical.isLt
  have hlength := length.isLt
  have hwraps : physical > -1 - length ↔ 2 ^ 64 ≤ physical.toNat + length.toNat := by
    rw [gt_iff_lt, lt_def, toNat_sub, show (-1 : Word).toNat = 2 ^ 64 - 1 from rfl]
    omega
  have hzero : length = 0 ↔ length.toNat = 0 :=
    ⟨fun heq => by rw [heq]; rfl, fun heq => eq_of_toNat_eq heq⟩
  unfold pmmIsPhysicalRangeValid
  by_cases hempty : length = 0
  · rw [if_pos hempty]
    exact iff_of_false Bool.false_ne_true fun h => absurd (hzero.mp hempty) (by omega)
  have hpos : 0 < length.toNat := Nat.pos_of_ne_zero fun heq => hempty (hzero.mpr heq)
  rw [if_neg hempty]
  cases memmap with
  | none => exact iff_of_false Bool.false_ne_true nofun
  | some entries =>
      dsimp only
      by_cases hover : physical > -1 - length
      · rw [if_pos hover]
        refine iff_of_false Bool.false_ne_true ?_
        rintro ⟨-, _, entry, -, -, hend, -, hle⟩
        have hsum := hwraps.mp hover
        omega
      have hsum : (physical + length).toNat = physical.toNat + length.toNat := by
        rw [toNat_add]
        exact Nat.mod_eq_of_lt (Nat.not_le.mp fun hle => hover (hwraps.mpr hle))
      rw [if_neg hover, List.any_eq_true, hsum]
      simp only [Bool.and_eq_true, decide_eq_true_eq]
      constructor
      · rintro ⟨entry, hmem, ⟨⟨-, hend⟩, hbase⟩, hle⟩
        exact ⟨hpos, entries, entry, rfl, hmem, hend, hbase, hle⟩
      · rintro ⟨-, _, entry, heq, hmem, hend, hbase, hle⟩
        obtain rfl := some.inj heq
        exact ⟨entry, hmem, ⟨⟨by omega, hend⟩, hbase⟩, hle⟩

namespace AcpiMemory

/-- A range of physical memory lies within one entry of the memory map, and is visible in the
HHDM. -/
structure Maps (mem : AcpiMemory) (table : Word) (n : ℕ) : Prop where
  region : ∃ entries entry, mem.memmap = some entries ∧ entry ∈ entries ∧
    entry.base + entry.length < 2 ^ 64 ∧ entry.base ≤ table.toNat ∧
    table.toNat + n ≤ entry.base + entry.length
  visible : table.toNat + n + mem.hhdmOffset.toNat ≤ 2 ^ 64
  nonnull : 0 < table.toNat + mem.hhdmOffset.toNat

/-- The bytes from an address on. -/
def Holds (mem : AcpiMemory) (table : Word) (bytes : List (BitVec 8)) : Prop :=
  ∀ i, i < bytes.length → mem.physical (table + BitVec.ofNat 64 i) = bytes[i]?

section Ranges

variable {mem : AcpiMemory} {table : Word} {n : ℕ} (h : mem.Maps table n)

include h

theorem Maps.lt : table.toNat + n < 2 ^ 64 := by
  obtain ⟨_, entry, -, -, hend, -, hle⟩ := h.region
  omega

/-- Offsets into the table do not wrap. -/
theorem Maps.toNat_add {d : ℕ} (hoff : d ≤ n) :
    (table + BitVec.ofNat 64 d).toNat = table.toNat + d := by
  have hlt := h.lt
  rw [BitVec.toNat_add, BitVec.toNat_ofNat, Nat.mod_eq_of_lt (by omega : d < 2 ^ 64)]
  exact Nat.mod_eq_of_lt (by omega)

/-- A part of a range is valid. -/
theorem Maps.valid {d len : ℕ} (hlen : 0 < len) (hfits : d + len ≤ n) :
    pmmIsPhysicalRangeValid mem.memmap (table + BitVec.ofNat 64 d) (BitVec.ofNat 64 len) =
      true := by
  obtain ⟨entries, entry, hmemmap, hmem, hend, hbase, hle⟩ := h.region
  have hlt := h.lt
  have hlen' : (BitVec.ofNat 64 len).toNat = len := by
    rw [toNat_ofNat]
    exact Nat.mod_eq_of_lt (by omega)
  rw [pmmIsPhysicalRangeValid_iff, h.toNat_add (show d ≤ n by omega), hlen']
  exact ⟨hlen, entries, entry, hmemmap, hmem, hend, by omega, by omega⟩

/-- `acpi_phys_to_virt` within a table. -/
theorem Maps.physToVirt {d len : ℕ} (hlen : 0 < len) (hfits : d + len ≤ n) :
    acpiPhysToVirt mem (table + BitVec.ofNat 64 d) (BitVec.ofNat 64 len) =
        table + BitVec.ofNat 64 d + mem.hhdmOffset ∧
      table + BitVec.ofNat 64 d + mem.hhdmOffset ≠ 0 := by
  have hlt := h.lt
  have hvisible := h.visible
  have hnonnull := h.nonnull
  have hhhdm := mem.hhdmOffset.isLt
  have hoff := h.toNat_add (show d ≤ n by omega)
  have hlen' : (BitVec.ofNat 64 len).toNat = len := by
    rw [toNat_ofNat]
    exact Nat.mod_eq_of_lt (by omega)
  have hmax : (-1 : Word).toNat = 2 ^ 64 - 1 := rfl
  have hlast : (table + BitVec.ofNat 64 d + BitVec.ofNat 64 len - 1).toNat =
      table.toNat + d + len - 1 := by
    have hsum : (table + BitVec.ofNat 64 d + BitVec.ofNat 64 len).toNat =
        table.toNat + d + len := by
      rw [BitVec.toNat_add, hoff, hlen']
      exact Nat.mod_eq_of_lt (by omega)
    rw [toNat_sub, hsum, show (1 : Word).toNat = 1 from rfl]
    omega
  refine ⟨?_, ?_⟩
  · rw [acpiPhysToVirt, if_neg (by rw [h.valid hlen hfits]; decide), if_neg, if_neg, if_neg]
    · rw [gt_iff_lt, lt_def, hlast, toNat_sub, hmax]
      omega
    · rw [gt_iff_lt, lt_def, hlen', toNat_sub, hmax, hoff]
      omega
    · rw [gt_iff_lt, lt_def, hoff, toNat_sub, hmax]
      omega
  · intro hzero
    have hsum := congrArg BitVec.toNat hzero
    rw [BitVec.toNat_add, hoff] at hsum
    change _ = 0 at hsum
    omega

end Ranges

section Reads

variable {mem : AcpiMemory} {table : Word} {bytes : List (BitVec 8)} (h : mem.Holds table bytes)

include h

/-- Reads through the HHDM see the bytes of the table. -/
theorem Holds.u8 {d k : ℕ} (hlt : d + k < bytes.length) :
    mem.u8 (table + BitVec.ofNat 64 d + mem.hhdmOffset) k = (bytes.drop d)[k]? := by
  have haddress : table + BitVec.ofNat 64 d + mem.hhdmOffset + BitVec.ofNat 64 k - mem.hhdmOffset =
      table + BitVec.ofNat 64 (d + k) := by
    rw [BitVec.add_assoc _ mem.hhdmOffset, BitVec.add_comm mem.hhdmOffset, ← BitVec.add_assoc,
      BitVec.add_sub_cancel, BitVec.add_assoc, ofNat_add]
  rw [AcpiMemory.u8, haddress, h _ hlt, List.getElem?_drop]

theorem Holds.u16 {d k : ℕ} (hlt : d + k + 1 < bytes.length) :
    mem.u16 (table + BitVec.ofNat 64 d + mem.hhdmOffset) k = le16At (bytes.drop d) k := by
  rw [AcpiMemory.u16, le16At, h.u8 (by omega), h.u8 (by omega)]

/-- The parser reads what is in the bytes. -/
theorem Holds.u32 {d k : ℕ} (hlt : d + k + 3 < bytes.length) :
    mem.u32 (table + BitVec.ofNat 64 d + mem.hhdmOffset) k = le32At (bytes.drop d) k := by
  rw [AcpiMemory.u32, le32At, h.u8 (by omega), h.u8 (by omega), h.u8 (by omega), h.u8 (by omega)]

end Reads

end AcpiMemory

/-! ## The loop over the entries -/

section Loop

variable {mem : AcpiMemory} {table : Word} {bytes rest : List (BitVec 8)} {off : ℕ}
  {r : TaggedRecord}

/-- The body of a record follows its two header bytes. -/
theorem getElem?_encode {k : ℕ} (hk : k < r.body.length) :
    (r.encode ++ rest)[k + 2]? = r.body[k]? := by
  rw [encode, List.cons_append, List.cons_append]
  exact List.getElem?_append_left hk

theorem le32At_encode {k : ℕ} (hk : k + 3 < r.body.length) :
    le32At (r.encode ++ rest) (k + 2) = le32At r.body k := by
  rw [le32At, le32At, getElem?_encode (by omega), show k + 2 + 1 = k + 1 + 2 by omega,
    getElem?_encode (by omega), show k + 2 + 2 = k + 2 + 2 from rfl, getElem?_encode (by omega),
    show k + 2 + 3 = k + 3 + 2 by omega, getElem?_encode hk]

theorem le16At_encode {k : ℕ} (hk : k + 1 < r.body.length) :
    le16At (r.encode ++ rest) (k + 2) = le16At r.body k := by
  rw [le16At, le16At, getElem?_encode (by omega), show k + 2 + 1 = k + 1 + 2 by omega,
    getElem?_encode hk]

variable (hmaps : mem.Maps table bytes.length) (hholds : mem.Holds table bytes)
  (hdrop : bytes.drop off = r.encode ++ rest)

include hdrop in
/-- A record ends where the rest begins. -/
theorem add_length_le : off + r.length + rest.length = bytes.length := by
  have hlength := congrArg List.length hdrop
  rw [length_drop, length_append, encode, length_cons, length_cons,
    ← TaggedRecord.length] at hlength
  have hmin : 2 ≤ r.length := Nat.le_add_left 2 _
  omega

include hmaps hdrop in
/-- The common part of the entry parsers, on a record of the table. -/
theorem acpiRecordEntry_eq (hshort : r.Short) {size : ℕ} (hsize : 0 < size)
    (short full unmapped : ℤ) (count max : ℕ) (read : Word → Option Madt) :
    acpiRecordEntry mem (table + BitVec.ofNat 64 off) (BitVec.ofNat 8 r.length)
        size short full unmapped count max read =
      if r.length < size then some (.error short)
      else if max ≤ count then some (.error full)
      else (read (table + BitVec.ofNat 64 off + mem.hhdmOffset)).map .ok := by
  have hle := add_length_le hdrop
  rw [acpiRecordEntry, hshort.toNat_length]
  split_ifs with hlength hcount hnull
  · rfl
  · rfl
  · rw [(hmaps.physToVirt hsize (by omega)).1] at hnull
    exact absurd hnull (hmaps.physToVirt hsize (by omega)).2
  · rw [(hmaps.physToVirt hsize (by omega)).1]

include hmaps hholds hdrop in
/-- **One entry**, read from memory. -/
theorem acpiParseMadtEntry_eq (hshort : r.Short) (m : Madt) :
    acpiParseMadtEntry mem (table + BitVec.ofNat 64 off) r.tag (BitVec.ofNat 8 r.length) m =
      some (m.accept r) := by
  have hle := add_length_le hdrop
  have hbody : r.length = r.body.length + 2 := rfl
  have hu8 : ∀ {k}, k < r.body.length →
      mem.u8 (table + BitVec.ofNat 64 off + mem.hhdmOffset) (k + 2) = r.body[k]? := by
    intro k hk
    rw [hholds.u8 (by omega), hdrop, getElem?_encode hk]
  have hu32 : ∀ {k}, k + 3 < r.body.length →
      mem.u32 (table + BitVec.ofNat 64 off + mem.hhdmOffset) (k + 2) = le32At r.body k := by
    intro k hk
    rw [hholds.u32 (by omega), hdrop, le32At_encode hk]
  have hu16 : ∀ {k}, k + 1 < r.body.length →
      mem.u16 (table + BitVec.ofNat 64 off + mem.hhdmOffset) (k + 2) = le16At r.body k := by
    intro k hk
    rw [hholds.u16 (by omega), hdrop, le16At_encode hk]
  unfold acpiParseMadtEntry Madt.accept
  by_cases hlocal : r.tag = madtTypeLocalApic
  · rw [if_pos hlocal, if_pos hlocal, acpiRecordEntry_eq hmaps hdrop hshort (by decide)]
    split_ifs with hlength hcount
    · rfl
    · rfl
    · obtain ⟨flags, hflags⟩ := le32At_isSome (show 2 + 3 < r.body.length by omega)
      rw [hu8 (k := 0) (by omega), hu8 (k := 1) (by omega), hu32 (k := 2) (by omega),
        TaggedRecord.localApic?, if_pos hlocal, hflags, List.getElem?_eq_getElem (by omega),
        List.getElem?_eq_getElem (by omega)]
      rfl
  rw [if_neg hlocal, if_neg hlocal]
  by_cases hio : r.tag = madtTypeIoApic
  · rw [if_pos hio, if_pos hio, acpiRecordEntry_eq hmaps hdrop hshort (by decide)]
    split_ifs with hlength hcount
    · rfl
    · rfl
    · obtain ⟨address, haddress⟩ := le32At_isSome (show 2 + 3 < r.body.length by omega)
      obtain ⟨gsiBase, hgsiBase⟩ := le32At_isSome (show 6 + 3 < r.body.length by omega)
      rw [hu8 (k := 0) (by omega), hu32 (k := 2) (by omega), hu32 (k := 6) (by omega),
        TaggedRecord.ioApic?, if_pos hio, haddress, hgsiBase, List.getElem?_eq_getElem (by omega)]
      rfl
  rw [if_neg hio, if_neg hio]
  by_cases hiso : r.tag = madtTypeIso
  · rw [if_pos hiso, if_pos hiso, acpiRecordEntry_eq hmaps hdrop hshort (by decide)]
    split_ifs with hlength hcount
    · rfl
    · rfl
    · obtain ⟨gsi, hgsi⟩ := le32At_isSome (show 2 + 3 < r.body.length by omega)
      obtain ⟨flags, hflags⟩ := le16At_isSome (show 6 + 1 < r.body.length by omega)
      rw [hu8 (k := 0) (by omega), hu8 (k := 1) (by omega), hu32 (k := 2) (by omega),
        hu16 (k := 6) (by omega), TaggedRecord.iso?, if_pos hiso, hgsi, hflags,
        List.getElem?_eq_getElem (by omega),
        List.getElem?_eq_getElem (by omega)]
      rfl
  · rw [if_neg hiso, if_neg hiso]

end Loop

/-- The code a parse returns. -/
def Madt.outcome (result : Option ℤ × Madt) : ℤ × Madt := (result.1.getD 0, result.2)

section Entries

variable {mem : AcpiMemory} {table : Word} {bytes : List (BitVec 8)}
  (hmaps : mem.Maps table bytes.length) (hholds : mem.Holds table bytes) (hlong : 2 ≤ bytes.length)

include hmaps in
theorem toNat_end_sub {off : ℕ} (hoff : off ≤ bytes.length) :
    (table + BitVec.ofNat 64 bytes.length - (table + BitVec.ofNat 64 off)).toNat =
      bytes.length - off := by
  have hlt := hmaps.lt
  rw [toNat_sub, hmaps.toNat_add hoff, hmaps.toNat_add (Nat.le_refl _)]
  omega

include hmaps hlong in
/-- The loop ends where no header fits. -/
theorem past_last_header_iff {off : ℕ} (hoff : off ≤ bytes.length) :
    table + BitVec.ofNat 64 off > table + BitVec.ofNat 64 bytes.length - 2 ↔
      bytes.length < off + 2 := by
  have hlt := hmaps.lt
  rw [gt_iff_lt, lt_def, toNat_sub, hmaps.toNat_add hoff, hmaps.toNat_add (Nat.le_refl _),
    show (2 : Word).toNat = 2 from rfl]
  omega

include hmaps hholds hlong in
/-- **The loop over the entries** consumes the bytes of the table, and reads no others. -/
theorem acpiParseMadtEntries_eq {off : ℕ} (hoff : off ≤ bytes.length)
    (hrounds : bytes.length - off ≤ rounds) (m : Madt) :
    acpiParseMadtEntries mem (table + BitVec.ofNat 64 bytes.length) (rounds + 1)
        (table + BitVec.ofNat 64 off) m =
      some (Madt.outcome (consume Madt.accept Madt.reject rounds (bytes.drop off) m)) := by
  induction rounds generalizing off m with
  | zero =>
      obtain rfl : off = bytes.length := by omega
      rw [drop_length, consume_nil, acpiParseMadtEntries, if_neg (BitVec.lt_irrefl _),
        if_neg (not_not.mpr rfl)]
      rfl
  | succ rounds ih =>
      by_cases hend : off = bytes.length
      · rw [hend, drop_length, consume_nil, acpiParseMadtEntries, if_neg (BitVec.lt_irrefl _),
          if_neg (not_not.mpr rfl)]
        rfl
      have hlength : (bytes.drop off).length = bytes.length - off := length_drop
      have hlt : table + BitVec.ofNat 64 off < table + BitVec.ofNat 64 bytes.length := by
        rw [lt_def, hmaps.toNat_add hoff, hmaps.toNat_add (Nat.le_refl _)]
        omega
      rw [acpiParseMadtEntries, if_pos hlt]
      match hdrop : bytes.drop off with
      | [] =>
          rw [hdrop, length_nil] at hlength
          omega
      | [byte] =>
          rw [hdrop, length_singleton] at hlength
          rw [if_pos ((past_last_header_iff hmaps hlong hoff).mpr (by omega))]
          rfl
      | tag :: length :: rest =>
          rw [hdrop, length_cons, length_cons] at hlength
          have hvirtual := hmaps.physToVirt (show 0 < 2 by decide)
            (show off + 2 ≤ bytes.length by omega)
          have htag : mem.u8 (table + BitVec.ofNat 64 off + mem.hhdmOffset) 0 = some tag := by
            rw [hholds.u8 (by omega), hdrop]
            rfl
          have hbyte : mem.u8 (table + BitVec.ofNat 64 off + mem.hhdmOffset) 1 = some length := by
            rw [hholds.u8 (by omega), hdrop]
            rfl
          have hword : (length.setWidth 64).toNat = length.toNat := by
            rw [toNat_setWidth]
            exact Nat.mod_eq_of_lt (by have := length.isLt; omega)
          have hover : length.setWidth 64 >
            table + BitVec.ofNat 64 bytes.length - (table + BitVec.ofNat 64 off) ↔
              rest.length + 2 < length.toNat := by
            rw [gt_iff_lt, lt_def, toNat_end_sub hmaps hoff, hword]
            omega
          rw [if_neg (fun hpast => absurd ((past_last_header_iff hmaps hlong hoff).mp hpast)
            (by omega)), show (2 : Word) = BitVec.ofNat 64 2 from rfl, hvirtual.1,
            if_neg hvirtual.2, htag, hbyte,
            TaggedRecord.consume_succ _ _ (cons_ne_nil _ _)]
          simp only [bind_eq_bind, bind_some]
          by_cases hzero : length = 0
          · rw [if_pos hzero, TaggedRecord.next,
              if_neg (by rw [hzero]; exact fun h => absurd h.1 (by decide))]
            dsimp only
            rw [Madt.reject, if_pos hzero]
            rfl
          rw [if_neg hzero]
          by_cases htwo : length.toNat < 2
          · rw [if_pos htwo, TaggedRecord.next, if_neg (fun h => absurd h.1 (Nat.not_le.mpr htwo))]
            dsimp only
            rw [Madt.reject, if_neg hzero, if_pos htwo]
            rfl
          rw [if_neg htwo]
          by_cases hlast : rest.length + 2 < length.toNat
          · rw [if_pos (hover.mpr hlast), TaggedRecord.next,
              if_neg (fun h => absurd h.2 (Nat.not_le.mpr hlast))]
            dsimp only
            rw [Madt.reject, if_neg hzero, if_neg htwo]
            rfl
          rw [if_neg (fun h => hlast (hover.mp h))]
          -- a whole entry, and what comes behind it
          obtain ⟨r, behind, hnext⟩ : ∃ r behind, TaggedRecord.next (tag :: length :: rest) =
            some (r, behind) :=
            ⟨_, _, if_pos ⟨Nat.not_lt.mp htwo, Nat.not_lt.mp hlast⟩⟩
          obtain ⟨hshort, hencode⟩ := TaggedRecord.next_eq_some_iff.mp hnext
          obtain ⟨rfl, hbytes⟩ := List.cons.inj hencode
          obtain ⟨rfl, -⟩ := List.cons.inj hbytes
          have hentry := hdrop.trans hencode
          have hsum := add_length_le hentry
          have hmin : 2 ≤ r.length := Nat.le_add_left 2 _
          have hadvance : table + BitVec.ofNat 64 off + (BitVec.ofNat 8 r.length).setWidth 64 =
              table + BitVec.ofNat 64 (off + r.length) := by
            have hsame : (BitVec.ofNat 8 r.length).setWidth 64 = BitVec.ofNat 64 r.length := by
              apply eq_of_toNat_eq
              rw [hword, hshort.toNat_length, toNat_ofNat]
              exact (Nat.mod_eq_of_lt (Nat.lt_trans hshort (by decide))).symm
            rw [hsame, BitVec.add_assoc, ofNat_add]
          have hbehind : bytes.drop (off + r.length) = behind := by
            rw [← drop_drop, hentry]
            exact drop_left' (by rw [encode, length_cons, length_cons]; rfl)
          rw [acpiParseMadtEntry_eq hmaps hholds hentry hshort, hnext, bind_some]
          dsimp only
          cases m.accept r with
          | error code => rfl
          | ok m' =>
              dsimp only
              rw [hadvance, ih (by omega) (by omega), hbehind]

end Entries

/-! ## Whole tables -/

namespace AcpiMemory

/-- The bytes of a table, as far as they can be read. -/
def tableBytes (mem : AcpiMemory) (table : Word) (n : ℕ) : List (BitVec 8) :=
  (List.range n).map fun i => (mem.physical (table + BitVec.ofNat 64 i)).getD 0

/-- Memory of which nothing can be read but a table. -/
def confine (mem : AcpiMemory) (table : Word) (n : ℕ) : AcpiMemory :=
  { mem with physical := fun a => if (a - table).toNat < n then mem.physical a else none }

variable {mem : AcpiMemory} {table : Word} {n : ℕ}

theorem length_tableBytes : (mem.tableBytes table n).length = n := by
  rw [tableBytes, length_map, length_range]

/-- A table all of whose bytes can be read. -/
theorem holds_tableBytes (hread : ∀ i, i < n → (mem.physical (table + BitVec.ofNat 64 i)).isSome) :
    mem.Holds table (mem.tableBytes table n) := by
  intro i hi
  rw [length_tableBytes] at hi
  obtain ⟨byte, hbyte⟩ := isSome_iff_exists.mp (hread i hi)
  rw [tableBytes, List.getElem?_map, List.getElem?_range hi, hbyte, map_some, hbyte]
  rfl

/-- The table is all that is needed of memory. -/
theorem Holds.confine {bytes : List (BitVec 8)} (h : mem.Holds table bytes)
    (hlt : bytes.length < 2 ^ 64) :
    (mem.confine table bytes.length).Holds table bytes := by
  intro i hi
  have hdistance : (table + BitVec.ofNat 64 i - table).toNat = i := by
    rw [BitVec.add_comm, BitVec.add_sub_cancel, toNat_ofNat]
    exact Nat.mod_eq_of_lt (by omega)
  rw [AcpiMemory.confine]
  dsimp only
  rw [hdistance, if_pos hi]
  exact h i hi

theorem Maps.confine (h : mem.Maps table n) (k : ℕ) : (mem.confine table k).Maps table n :=
  ⟨h.region, h.visible, h.nonnull⟩

end AcpiMemory

/-- A checksum reads every byte. -/
theorem isSome_of_acpiChecksum {mem : AcpiMemory} {data : Word} {length : ℕ} {sum : BitVec 8}
    (h : acpiChecksum mem data length = some sum) {i : ℕ} (hi : i < length) :
    (mem.u8 data i).isSome := by
  have hall : ∀ (l : List ℕ) (start : BitVec 8),
      l.foldlM (fun sum i => (mem.u8 data i).map (sum + ·)) start = some sum → ∀ i ∈ l,
      (mem.u8 data i).isSome := by
    intro l
    induction l with
    | nil => exact fun _ _ => nofun
    | cons k l ih =>
        intro start hfold
        rw [foldlM_cons] at hfold
        cases hbyte : mem.u8 data k with
        | none =>
            rw [hbyte] at hfold
            cases hfold
        | some byte =>
            rw [hbyte] at hfold
            refine forall_mem_cons.mpr ⟨?_, ih _ hfold⟩
            rw [hbyte]
            rfl
  exact hall _ _ h i (mem_range.mpr hi)

/-- A translation adds the offset or fails. -/
theorem acpiPhysToVirt_eq (mem : AcpiMemory) (physical length : Word) :
    acpiPhysToVirt mem physical length = 0 ∨
      acpiPhysToVirt mem physical length = physical + mem.hhdmOffset := by
  unfold acpiPhysToVirt
  split_ifs
  · exact .inl rfl
  · exact .inl rfl
  · exact .inl rfl
  · exact .inl rfl
  · exact .inr rfl

/-- **A table that `acpi_validate_sdt` accepts** lies in one entry of the memory map, and its
header says how long it is. -/
theorem of_acpiValidateSdt {mem : AcpiMemory} {table : Word}
    (h : acpiValidateSdt mem table (table + mem.hhdmOffset) = some 0) :
    ∃ length, mem.u32 (table + mem.hhdmOffset) 4 = some length ∧ 36 ≤ length.toNat ∧
      pmmIsPhysicalRangeValid mem.memmap table (length.setWidth 64) = true ∧
      table + mem.hhdmOffset ≠ 0 ∧
      ∀ i, i < length.toNat → (mem.u8 (table + mem.hhdmOffset) i).isSome := by
  unfold acpiValidateSdt at h
  split_ifs at h with hnull hheader
  · cases h
  · cases h
  cases hlength : mem.u32 (table + mem.hhdmOffset) 4 with
  | none =>
      rw [hlength] at h
      cases h
  | some length =>
      rw [hlength] at h
      simp only [bind_eq_bind, bind_some] at h
      split_ifs at h with hshort hrange
      · cases h
      · cases h
      cases hsum : acpiChecksum mem (table + mem.hhdmOffset) length.toNat with
      | none =>
          rw [hsum] at h
          cases h
      | some sum =>
          rw [Bool.not_eq_false] at hrange
          exact ⟨length, rfl, Nat.not_lt.mp hshort, hrange, hnull, fun i hi =>
            isSome_of_acpiChecksum hsum hi⟩

section Whole

variable {mem : AcpiMemory} {table : Word} {bytes : List (BitVec 8)}
  (hmaps : mem.Maps table bytes.length) (hholds : mem.Holds table bytes) (hlong : 36 ≤ bytes.length)
    {length : BitVec 32}
  (hlength : le32At bytes 4 = some length) (hsize : length.toNat = bytes.length)

include hholds in
/-- Reads from the start of the table. -/
theorem AcpiMemory.Holds.u32_zero {k : ℕ} (hlt : k + 3 < bytes.length) :
    mem.u32 (table + mem.hhdmOffset) k = le32At bytes k := by
  have hread := hholds.u32 (d := 0) (k := k) (by omega)
  rwa [drop_zero, show table + BitVec.ofNat 64 0 = table from BitVec.add_zero _] at hread

include hmaps hholds hlong hlength hsize in
/-- **`acpi_parse_madt` on a table with a whole header.** -/
theorem acpiParseMadt_of_long (hheader : 44 ≤ bytes.length) (m : Madt) :
    acpiParseMadt mem table m =
      some (Madt.outcome (consume Madt.accept Madt.reject (bytes.length - 1) (bytes.drop 44)
        { localApicAddress := (le32At bytes 36).getD 0, flags := (le32At bytes 40).getD 0 })) := by
  obtain ⟨localApicAddress, haddress⟩ := le32At_isSome (show 36 + 3 < bytes.length by omega)
  obtain ⟨flags, hflags⟩ := le32At_isSome (show 40 + 3 < bytes.length by omega)
  have hvirtual := hmaps.physToVirt (d := 0) (show 0 < 44 by decide) (by omega)
  rw [show table + BitVec.ofNat 64 0 = table from BitVec.add_zero _] at hvirtual
  have hword : length.setWidth 64 = BitVec.ofNat 64 bytes.length := by
    apply eq_of_toNat_eq
    have hlt := length.isLt
    rw [toNat_setWidth, toNat_ofNat, hsize]
  have hfits : ¬ table > -1 - BitVec.ofNat 64 bytes.length := by
    have hlt := hmaps.lt
    rw [gt_iff_lt, lt_def, toNat_sub, toNat_ofNat,
      show (-1 : Word).toNat = 2 ^ 64 - 1 from rfl]
    omega
  obtain ⟨rounds, hrounds⟩ : ∃ rounds, bytes.length = rounds + 1 := ⟨bytes.length - 1, by omega⟩
  have hloop := acpiParseMadtEntries_eq hmaps hholds (by omega) hheader
    (show bytes.length - 44 ≤ rounds by omega)
    { localApicAddress := localApicAddress, flags := flags }
  unfold acpiParseMadt
  rw [madtHeaderSize, hvirtual.1]
  dsimp only
  rw [if_neg hvirtual.2, hholds.u32_zero (by omega), hlength, hholds.u32_zero (by omega), haddress,
    hholds.u32_zero (by omega), hflags]
  simp only [bind_eq_bind, bind_some]
  rw [if_neg (by omega), hword, if_neg hfits, hsize]
  simp only [getD_some]
  rw [hrounds, Nat.add_sub_cancel, ← hrounds]
  exact hrounds ▸ hloop

include hholds hlong hlength hsize in
/-- **`acpi_parse_madt` on a table that is too short.** -/
theorem acpiParseMadt_of_short (hheader : bytes.length < 44) (m : Madt) :
    acpiParseMadt mem table m =
      some (if acpiPhysToVirt mem table (BitVec.ofNat 64 madtHeaderSize) = 0 then
        -1 else -2, m) := by
  unfold acpiParseMadt
  dsimp only
  by_cases hnull : acpiPhysToVirt mem table (BitVec.ofNat 64 madtHeaderSize) = 0
  · rw [if_pos hnull, if_pos hnull]
  · rw [if_neg hnull, if_neg hnull, (acpiPhysToVirt_eq mem table _).resolve_left hnull,
      hholds.u32_zero (by omega), hlength]
    simp only [bind_eq_bind, bind_some]
    rw [hsize, if_pos (show bytes.length < madtHeaderSize from hheader)]
    rfl

end Whole

/-! ## The parser and the format -/

section Exact

/-- A rejected table is never reported as parsed. -/
theorem Madt.reject_ne_zero (bytes : List (BitVec 8)) : reject bytes ≠ 0 := by
  unfold reject
  split
  · split_ifs <;> decide
  · decide

theorem Madt.ne_zero_of_accept {m : Madt} {r : TaggedRecord} {code : ℤ}
    (h : m.accept r = .error code) :
    code ≠ 0 := by
  unfold accept at h
  split_ifs at h <;> cases h <;> decide

/-- The parser returns 0 if there is no fault. -/
theorem Madt.outcome_eq_zero_iff {bytes : List (BitVec 8)} {m : Madt} :
    (outcome (consume accept reject rounds bytes m)).1 = 0 ↔
      (consume accept reject rounds bytes m).1 = none := by
  cases hresult : consume accept reject rounds bytes m with
  | mk fault m' =>
      cases fault with
      | none => exact iff_of_true rfl rfl
      | some code =>
          refine iff_of_false ?_ (some_ne_none code)
          rcases TaggedRecord.consume_fault accept reject hresult with ⟨rest, rfl⟩ | ⟨t, r, herror⟩
          · exact reject_ne_zero rest
          · exact ne_zero_of_accept herror

/-- The lists are what the entries say, in their order. -/
structure Madt.Lists (m : Madt) (entries : List TaggedRecord) : Prop where
  localApics : m.localApics = entries.filterMap TaggedRecord.localApic?
  ioApics : m.ioApics = entries.filterMap TaggedRecord.ioApic?
  isos : m.isos = entries.filterMap TaggedRecord.iso?
  unknown : m.unknownEntryCount.toNat = entries.countP isUnknown

/-- The lists are those of the entries, in their order. -/
structure Madt.Tells (m : Madt) (entries : List MadtEntry) : Prop where
  localApics : m.localApics = entries.filterMap MadtEntry.localApic?
  ioApics : m.ioApics = entries.filterMap MadtEntry.ioApic?
  isos : m.isos = entries.filterMap MadtEntry.iso?
  unknown : m.unknownEntryCount.toNat = entries.countP MadtEntry.isUnknown

/-- The fold over the entries lists them. -/
theorem Madt.lists_extend {localApicAddress flags : BitVec 32}
    (hlength : (entries.flatMap encode).length < 2 ^ 32) :
    (extend { localApicAddress, flags } entries).Lists entries where
  localApics := rfl
  ioApics := rfl
  isos := rfl
  unknown := by
    have hcount := countP_le_length (p := isUnknown) (l := entries)
    have htwice := TaggedRecord.two_mul_length_le entries
    rw [extend]
    dsimp only
    rw [zero_add, toNat_ofNat]
    exact Nat.mod_eq_of_lt (by omega)

/-- The lists of proper entries hold their fields. -/
theorem Madt.Lists.tells {m : Madt} {entries : List MadtEntry} (hproper : ∀ e ∈ entries, e.Proper)
    (h : m.Lists (entries.map MadtEntry.record)) : m.Tells entries where
  localApics := by
    rw [h.localApics, filterMap_map]
    exact filterMap_congr fun e he => (MadtEntry.decode_record (hproper e he)).1
  ioApics := by
    rw [h.ioApics, filterMap_map]
    exact filterMap_congr fun e he => (MadtEntry.decode_record (hproper e he)).2.1
  isos := by
    rw [h.isos, filterMap_map]
    exact filterMap_congr fun e he => (MadtEntry.decode_record (hproper e he)).2.2.1
  unknown := by
    rw [h.unknown, countP_map]
    refine countP_congr fun e he => ?_
    rw [Function.comp_apply, (MadtEntry.decode_record (hproper e he)).2.2.2]

/-- **`consume` on the entries of a table** finds no fault if and only if they are valid. -/
theorem Madt.consume_iff {bytes : List (BitVec 8)} (hrounds : bytes.length ≤ rounds)
    {localApicAddress flags : BitVec 32} :
    ((consume accept reject rounds bytes { localApicAddress, flags }).1 = none ↔
        ∃ entries, MadtFormat entries ∧ bytes = entries.flatMap encode) ∧
      ∀ entries, MadtFormat entries → bytes = entries.flatMap encode →
        consume accept reject rounds bytes { localApicAddress, flags } =
          (none, extend { localApicAddress, flags } entries) := by
  have hvalid : ∀ entries, MadtFormat entries → bytes = entries.flatMap encode →
      consume accept reject rounds bytes { localApicAddress, flags } =
        (none, extend { localApicAddress, flags } entries) := by
    intro entries hformat hbytes
    rw [consume_eq_none_iff _ _ hrounds]
    exact ⟨entries, hformat.short, hbytes, (foldlM_accept_empty hformat.short).mpr ⟨hformat, rfl⟩⟩
  refine ⟨⟨fun hnone => ?_, ?_⟩, hvalid⟩
  · obtain ⟨entries, hshort, hbytes, hfold⟩ :=
      (consume_eq_none_iff accept reject hrounds).mp (Prod.ext hnone rfl)
    exact ⟨entries, ((foldlM_accept_empty hshort).mp hfold).1, hbytes⟩
  · rintro ⟨entries, hformat, hbytes⟩
    rw [hvalid entries hformat hbytes]

end Exact

/-- A table that is accepted is mapped, and its bytes can be read. -/
theorem of_validated {mem : AcpiMemory} {table : Word} {length : BitVec 32}
    (hvalid : acpiValidateSdt mem table (table + mem.hhdmOffset) = some 0)
    (hlength : mem.u32 (table + mem.hhdmOffset) 4 = some length)
    (hvisible : table.toNat + length.toNat + mem.hhdmOffset.toNat ≤ 2 ^ 64) :
    36 ≤ length.toNat ∧ mem.Maps table length.toNat ∧
      mem.Holds table (mem.tableBytes table length.toNat) := by
  obtain ⟨length', hlength', hlong, hrange, hnull, hread⟩ := of_acpiValidateSdt hvalid
  obtain rfl : length' = length := some.inj (hlength'.symm.trans hlength)
  have hlt := length'.isLt
  have hword : (length'.setWidth 64).toNat = length'.toNat := by
    rw [toNat_setWidth]
    exact Nat.mod_eq_of_lt (by omega)
  obtain ⟨-, entries, entry, hmemmap, hmem, hend, hbase, hle⟩ :=
    pmmIsPhysicalRangeValid_iff.mp hrange
  rw [hword] at hle
  refine ⟨hlong, ⟨⟨entries, entry, hmemmap, hmem, hend, hbase, hle⟩, hvisible, ?_⟩,
    AcpiMemory.holds_tableBytes fun i hi => ?_⟩
  · refine Nat.pos_of_ne_zero fun hzero => hnull (eq_of_toNat_eq ?_)
    rw [toNat_add, hzero]
    rfl
  · have hbyte := hread i hi
    rwa [AcpiMemory.u8, BitVec.add_assoc, BitVec.add_comm mem.hhdmOffset, ← BitVec.add_assoc,
      BitVec.add_sub_cancel] at hbyte

/-- **The MADT parser accepts exactly its format.**  For every table that `acpi_validate_sdt`
accepts and that lies in the HHDM as a whole, the parser returns, and it returns the same if
no byte can be read but those of the table.  It returns 0 if and only if the table has a whole
header and its other bytes are a valid sequence of entries.  Then the lists are what the
entries say; in particular, a table with the encodings of any valid entries gives these
entries back. -/
theorem acpiParseMadt_exact (mem : AcpiMemory) (table : Word) {length : BitVec 32}
    (hvalid : acpiValidateSdt mem table (table + mem.hhdmOffset) = some 0)
    (hlength : mem.u32 (table + mem.hhdmOffset) 4 = some length)
    (hvisible : table.toNat + length.toNat + mem.hhdmOffset.toNat ≤ 2 ^ 64) (m : Madt) :
    ∃ code m', acpiParseMadt mem table m = some (code, m') ∧
      acpiParseMadt (mem.confine table length.toNat) table m = some (code, m') ∧
      (code = 0 ↔ 44 ≤ length.toNat ∧ ∃ entries, MadtFormat entries ∧
        (mem.tableBytes table length.toNat).drop 44 = entries.flatMap encode) ∧
      (code = 0 → ∀ entries, MadtFormat entries →
        (mem.tableBytes table length.toNat).drop 44 = entries.flatMap encode → m'.Lists entries) ∧
      ∀ entries : List MadtEntry, (∀ e ∈ entries, e.Proper) →
      MadtFormat (entries.map MadtEntry.record) →
        44 ≤ length.toNat → (mem.tableBytes table length.toNat).drop 44 =
          (entries.map MadtEntry.record).flatMap encode → code = 0 ∧ m'.Tells entries := by
  obtain ⟨hlong, hmaps, hholds⟩ := of_validated hvalid hlength hvisible
  obtain ⟨bytes, hbytes⟩ : ∃ bytes, bytes = mem.tableBytes table length.toNat := ⟨_, rfl⟩
  have hsize : length.toNat = bytes.length := by rw [hbytes, AcpiMemory.length_tableBytes]
  rw [← hbytes] at hholds ⊢
  rw [hsize] at hmaps hlong ⊢
  have hlt := length.isLt
  have hholds' := hholds.confine (by omega)
  have hword : le32At bytes 4 = some length := (hholds.u32_zero (by omega)).symm.trans hlength
  by_cases hheader : 44 ≤ bytes.length
  · have hrounds : (bytes.drop 44).length ≤ bytes.length - 1 := by
      rw [length_drop]
      omega
    obtain ⟨hnone, hentries⟩ := @Madt.consume_iff _ _ hrounds ((le32At bytes 36).getD 0)
      ((le32At bytes 40).getD 0)
    have hlists : ∀ entries, MadtFormat entries → bytes.drop 44 = entries.flatMap encode →
        (Madt.outcome (consume Madt.accept Madt.reject (bytes.length - 1) (bytes.drop 44)
          { localApicAddress := (le32At bytes 36).getD 0
            flags := (le32At bytes 40).getD 0 })).2.Lists entries := by
      intro entries hformat hencode
      rw [hentries entries hformat hencode]
      refine Madt.lists_extend ?_
      rw [← hencode, length_drop]
      omega
    refine ⟨_, _, acpiParseMadt_of_long hmaps hholds hlong hword hsize hheader m,
      acpiParseMadt_of_long (hmaps.confine _) hholds' hlong hword hsize hheader m, ?_,
      fun _ => hlists, fun entries hproper hformat _ hencode => ?_⟩
    · exact (Madt.outcome_eq_zero_iff.trans hnone).trans ⟨fun h => ⟨hheader, h⟩, fun h => h.2⟩
    · refine ⟨Madt.outcome_eq_zero_iff.mpr (hnone.mpr ⟨_, hformat, hencode⟩), ?_⟩
      exact (hlists _ hformat hencode).tells hproper
  · have hcode : (if acpiPhysToVirt mem table (BitVec.ofNat 64 madtHeaderSize) = 0 then
        -1 else -2 : ℤ) ≠ 0 := by
      split_ifs <;> decide
    refine ⟨_, m, acpiParseMadt_of_short hholds hlong hword hsize (Nat.not_le.mp hheader) m,
      acpiParseMadt_of_short hholds' hlong hword hsize (Nat.not_le.mp hheader) m,
      iff_of_false hcode fun h => hheader h.1, fun hzero => absurd hzero hcode,
      fun _ _ _ hheader' => absurd hheader' hheader⟩

/-! ## Tables for given entries -/

/-- A MADT with the given entries; the other fields of the header are 0. -/
def madtTable (localApicAddress flags : BitVec 32) (entries : List TaggedRecord) :
    List (BitVec 8) :=
  let body := entries.flatMap encode
  let front := [0x41, 0x50, 0x49, 0x43] ++ bytes32 (BitVec.ofNat 32 (44 + body.length)) ++ [1]
  let back := List.replicate 26 0 ++ bytes32 localApicAddress ++ bytes32 flags ++ body
  front ++ -(front.sum + back.sum) :: back

theorem length_madtTable (localApicAddress flags : BitVec 32) (entries : List TaggedRecord) :
    (madtTable localApicAddress flags entries).length =
      44 + (entries.flatMap encode).length := by
  simp only [madtTable, bytes32, length_append, length_cons, length_nil, length_replicate]
  omega

theorem drop_madtTable (localApicAddress flags : BitVec 32) (entries : List TaggedRecord) :
    (madtTable localApicAddress flags entries).drop 44 = entries.flatMap encode := rfl

/-- The checksum byte makes the sum zero. -/
theorem sum_madtTable (localApicAddress flags : BitVec 32) (entries : List TaggedRecord) :
    (madtTable localApicAddress flags entries).sum = 0 := by
  unfold madtTable
  dsimp only
  rw [sum_append, sum_cons]
  ring

/-- The checksum of the bytes of a table. -/
theorem acpiChecksum_eq {mem : AcpiMemory} {table : Word} {bytes : List (BitVec 8)}
    (h : mem.Holds table bytes) {k : ℕ} (hk : k ≤ bytes.length) :
    acpiChecksum mem (table + mem.hhdmOffset) k = some (bytes.take k).sum := by
  induction k with
  | zero => rfl
  | succ k ih =>
      have hbyte := h.u8 (d := 0) (k := k) (by omega)
      rw [show table + BitVec.ofNat 64 0 = table from BitVec.add_zero _, drop_zero,
        List.getElem?_eq_getElem (by omega)] at hbyte
      rw [acpiChecksum] at ih ⊢
      rw [range_succ, foldlM_append, ih (by omega)]
      simp only [bind_eq_bind, bind_some, foldlM_cons, foldlM_nil, hbyte, map_some]
      rw [take_succ_eq_append_getElem (by omega), sum_append, sum_singleton]
      rfl

/-- **Every valid sequence of entries has a table** that `acpi_validate_sdt` accepts, wherever
it lies. -/
theorem madtTable_validated {mem : AcpiMemory} {table : Word} {localApicAddress flags : BitVec 32}
    (hlt : (madtTable localApicAddress flags entries).length < 2 ^ 32)
    (hmaps : mem.Maps table (madtTable localApicAddress flags entries).length)
    (hholds : mem.Holds table (madtTable localApicAddress flags entries)) :
    acpiValidateSdt mem table (table + mem.hhdmOffset) = some 0 := by
  have hlong := length_madtTable localApicAddress flags entries
  have hword : le32At (madtTable localApicAddress flags entries) 4 =
      some (BitVec.ofNat 32 (madtTable localApicAddress flags entries).length) := by
    rw [hlong]
    exact congrArg some (le32_bytes32 _)
  have hsum := sum_madtTable localApicAddress flags entries
  generalize madtTable localApicAddress flags entries = bytes at *
  have hlength : (BitVec.ofNat 32 bytes.length).toNat = bytes.length := by
    rw [toNat_ofNat]
    exact Nat.mod_eq_of_lt hlt
  have hwide : (BitVec.ofNat 32 bytes.length).setWidth 64 = BitVec.ofNat 64 bytes.length := by
    apply eq_of_toNat_eq
    rw [toNat_setWidth, hlength, toNat_ofNat]
  have hzero : table + BitVec.ofNat 64 0 = table := BitVec.add_zero _
  have hnull := (hmaps.physToVirt (d := 0) (show 0 < 36 by decide) (by omega)).2
  have hheader := hmaps.valid (d := 0) (show 0 < 36 by decide) (by omega)
  have hwhole := hmaps.valid (d := 0) (show 0 < bytes.length by omega) (by omega)
  rw [hzero] at hnull hheader hwhole
  unfold acpiValidateSdt
  rw [if_neg hnull, sdtHeaderSize, hheader, if_neg (by decide), hholds.u32_zero (by omega), hword]
  simp only [bind_eq_bind, bind_some]
  rw [hlength, if_neg (by omega), hwide, hwhole, if_neg (by decide),
    acpiChecksum_eq hholds (Nat.le_refl _), take_length, hsum]
  rfl

/-- One Local APIC, an I/O APIC with two bytes behind its structure, an override, and an entry
of type 4. -/
def demoMadtEntries : List MadtEntry :=
  [.localApic ⟨0, 0, 1⟩ [], .ioApic 2 0 0xFEC00000 0 [0xAA, 0xBB], .iso ⟨0, 0, 2, 0⟩ [],
    .unknown 4 [0xFF, 0, 0, 1]]

/-- Their table, at 1 MiB. -/
def demoMadtMemory : AcpiMemory where
  memmap := some [⟨0x100000, 0x1000, 2⟩]
  hhdmOffset := 0xFFFF800000000000
  physical := fun a =>
    (madtTable 0xFEE00000 1 (demoMadtEntries.map MadtEntry.record))[(a - 0x100000).toNat]?

theorem acpiParseMadt_exact_demo :
    ∃ m, acpiParseMadt demoMadtMemory 0x100000 {} = some (0, m) ∧ m.Tells demoMadtEntries := by
  have hlength : demoMadtMemory.u32 (0x100000 + demoMadtMemory.hhdmOffset) 4 =
      some 82 := by decide +kernel
  obtain ⟨code, m, hparse, -, -, -, hentries⟩ := acpiParseMadt_exact demoMadtMemory 0x100000
    (by decide +kernel) hlength (by decide +kernel) {}
  obtain ⟨rfl, htells⟩ :=
    hentries demoMadtEntries (by simp [demoMadtEntries, MadtEntry.Proper]; decide)
    ⟨by decide +kernel, by decide +kernel, by decide +kernel, by decide +kernel, by decide +kernel⟩
    (by decide +kernel) (by decide +kernel)
  exact ⟨m, hparse, htells⟩

/-- **A table is read as it is built**, wherever it lies: it is accepted, and the parser gives
back the entries and both words of the header. -/
theorem madtTable_parsed {mem : AcpiMemory} {table : Word} {localApicAddress flags : BitVec 32}
    {entries : List MadtEntry} (hproper : ∀ e ∈ entries, e.Proper)
    (hformat : MadtFormat (entries.map MadtEntry.record)) {bytes : List (BitVec 8)}
    (hbytes : bytes = madtTable localApicAddress flags (entries.map MadtEntry.record))
    (hlt : bytes.length < 2 ^ 32) (hmaps : mem.Maps table bytes.length)
    (hholds : mem.Holds table bytes)
    (m : Madt) :
    acpiValidateSdt mem table (table + mem.hhdmOffset) = some 0 ∧
      ∃ m', acpiParseMadt mem table m = some (0, m') ∧ m'.Tells entries ∧
        m'.localApicAddress = localApicAddress ∧ m'.flags = flags := by
  subst hbytes
  have hlong := length_madtTable localApicAddress flags (entries.map MadtEntry.record)
  have hparse := acpiParseMadt_of_long hmaps hholds (by omega) (congrArg some (le32_bytes32 _))
    (by rw [toNat_ofNat, ← hlong, Nat.mod_eq_of_lt hlt]) (by omega) m
  rw [(Madt.consume_iff (by rw [length_drop]; omega)).2 _ hformat (drop_madtTable _ _ _)] at hparse
  exact ⟨madtTable_validated hlt hmaps hholds, _, hparse,
    (Madt.lists_extend (by omega)).tells hproper, le32_bytes32 _, le32_bytes32 _⟩

theorem madtTable_parsed_demo : ∃ m', acpiParseMadt demoMadtMemory 0x100000 {} = some (0, m') ∧
    m'.Tells demoMadtEntries ∧ m'.localApicAddress = 0xFEE00000 ∧ m'.flags = 1 :=
  (madtTable_parsed (by simp [demoMadtEntries, MadtEntry.Proper]; decide)
    ⟨by decide +kernel, by decide +kernel, by decide +kernel, by decide +kernel, by decide +kernel⟩
    rfl
    (by decide +kernel) ⟨⟨_, _, rfl, mem_singleton_self _, by decide +kernel⟩, by decide +kernel,
      by decide +kernel⟩ (by unfold AcpiMemory.Holds; decide +kernel) {}).2

end Batos
