import Batos.Acpi.Model
import Batos.Lib.TaggedRecord

/-!
# The format of the MADT

Behind its header a MADT is a sequence of tagged records.  `MadtFormat` says which sequences are
valid, and the decoders `localApic?`, `ioApic?` and `iso?` what a record says.

`Madt.accept` takes one record at a time, with the checks and the codes of the source, and a
sequence gets through if and only if it is valid (`foldlM_accept_iff`).  `MadtEntry` goes the
other way, from what an entry says to its bytes; decoding gives the entry back
(`MadtEntry.decode_record`).
-/

namespace Batos

open List

/-- Four bytes of a list. -/
def le32At (bytes : List (BitVec 8)) (k : ℕ) : Option (BitVec 32) := do
  let b₀ ← bytes[k]?
  let b₁ ← bytes[k + 1]?
  let b₂ ← bytes[k + 2]?
  let b₃ ← bytes[k + 3]?
  return le32 b₀ b₁ b₂ b₃

/-- Two bytes of a list. -/
def le16At (bytes : List (BitVec 8)) (k : ℕ) : Option (BitVec 16) := do
  let b₀ ← bytes[k]?
  let b₁ ← bytes[k + 1]?
  return le16 b₀ b₁

/-! ## The format -/

namespace TaggedRecord

/-- The Local APIC an entry of type 0 describes. -/
def localApic? (r : TaggedRecord) : Option MadtLocalApic :=
  if r.tag = madtTypeLocalApic then do
    let processorUid ← r.body[0]?
    let apicId ← r.body[1]?
    let flags ← le32At r.body 2
    return ⟨processorUid, apicId, flags⟩
  else none

/-- The I/O APIC an entry of type 1 describes. -/
def ioApic? (r : TaggedRecord) : Option MadtIoApic :=
  if r.tag = madtTypeIoApic then do
    let id ← r.body[0]?
    let address ← le32At r.body 2
    let gsiBase ← le32At r.body 6
    return ⟨id, address.setWidth 64, gsiBase⟩
  else none

/-- The override an entry of type 2 describes. -/
def iso? (r : TaggedRecord) : Option MadtIso :=
  if r.tag = madtTypeIso then do
    let bus ← r.body[0]?
    let source ← r.body[1]?
    let gsi ← le32At r.body 2
    let flags ← le16At r.body 6
    return ⟨bus, source, gsi, flags⟩
  else none

/-- The type is none of the three. -/
def isUnknown (r : TaggedRecord) : Bool :=
  r.tag ≠ madtTypeLocalApic && r.tag ≠ madtTypeIoApic && r.tag ≠ madtTypeIso

/-- How long an entry of a type is at least. -/
def minimalLength (type : BitVec 8) : ℕ :=
  if type = madtTypeLocalApic then 8
  else if type = madtTypeIoApic then 12
  else if type = madtTypeIso then 10
  else 2

end TaggedRecord

/-- The entries of a MADT: each long enough for its type, and none of the types too often. -/
structure MadtFormat (entries : List TaggedRecord) : Prop where
  short : ∀ r ∈ entries, r.Short
  long : ∀ r ∈ entries, TaggedRecord.minimalLength r.tag ≤ r.length
  localApics : entries.countP (·.tag = madtTypeLocalApic) ≤ acpiMaxMadtLocalApics
  ioApics : entries.countP (·.tag = madtTypeIoApic) ≤ acpiMaxMadtIoApics
  isos : entries.countP (·.tag = madtTypeIso) ≤ acpiMaxMadtIsos

namespace Madt

/-- One more entry, or the code with which it is turned down. -/
def accept (m : Madt) (r : TaggedRecord) : Except ℤ Madt :=
  if r.tag = madtTypeLocalApic then
    if r.length < 8 then .error (-9)
    else if acpiMaxMadtLocalApics ≤ m.localApics.length then .error (-10)
    else .ok { m with localApics := m.localApics ++ r.localApic?.toList }
  else if r.tag = madtTypeIoApic then
    if r.length < 12 then .error (-12)
    else if acpiMaxMadtIoApics ≤ m.ioApics.length then .error (-13)
    else .ok { m with ioApics := m.ioApics ++ r.ioApic?.toList }
  else if r.tag = madtTypeIso then
    if r.length < 10 then .error (-15)
    else if acpiMaxMadtIsos ≤ m.isos.length then .error (-16)
    else .ok { m with isos := m.isos ++ r.iso?.toList }
  else .ok { m with unknownEntryCount := m.unknownEntryCount + 1 }

/-- The code for bytes that do not start with an entry. -/
def reject : List (BitVec 8) → ℤ
  | _ :: length :: _ => if length = 0 then -6 else if length.toNat < 2 then -7 else -8
  | _ => -4

/-- All entries of a list. -/
def extend (m : Madt) (entries : List TaggedRecord) : Madt :=
  { m with
    localApics := m.localApics ++ entries.filterMap TaggedRecord.localApic?
    ioApics := m.ioApics ++ entries.filterMap TaggedRecord.ioApic?
    isos := m.isos ++ entries.filterMap TaggedRecord.iso?
    unknownEntryCount :=
      m.unknownEntryCount + BitVec.ofNat 32 (entries.countP TaggedRecord.isUnknown) }

end Madt

/-! ## Decoding -/

section Decoding

variable {bytes : List (BitVec 8)} {k : ℕ}

theorem le32At_isSome (h : k + 3 < bytes.length) : ∃ x, le32At bytes k = some x := by
  rw [le32At, List.getElem?_eq_getElem (by omega), List.getElem?_eq_getElem (by omega),
    List.getElem?_eq_getElem (by omega), List.getElem?_eq_getElem h]
  exact ⟨_, rfl⟩

theorem le16At_isSome (h : k + 1 < bytes.length) : ∃ x, le16At bytes k = some x := by
  rw [le16At, List.getElem?_eq_getElem (by omega), List.getElem?_eq_getElem h]
  exact ⟨_, rfl⟩

variable {r : TaggedRecord}

theorem TaggedRecord.localApic?_eq (htag : r.tag = madtTypeLocalApic) (hlength : 8 ≤ r.length) :
    ∃ x, r.localApic? = some x := by
  rw [TaggedRecord.length] at hlength
  obtain ⟨flags, hflags⟩ := le32At_isSome (show 2 + 3 < r.body.length by omega)
  rw [localApic?, if_pos htag, hflags,
    List.getElem?_eq_getElem (by omega), List.getElem?_eq_getElem (by omega)]
  exact ⟨_, rfl⟩

theorem TaggedRecord.ioApic?_eq (htag : r.tag = madtTypeIoApic) (hlength : 12 ≤ r.length) :
    ∃ x, r.ioApic? = some x := by
  rw [TaggedRecord.length] at hlength
  obtain ⟨address, haddress⟩ := le32At_isSome (show 2 + 3 < r.body.length by omega)
  obtain ⟨gsiBase, hgsiBase⟩ := le32At_isSome (show 6 + 3 < r.body.length by omega)
  rw [ioApic?, if_pos htag, haddress, hgsiBase, List.getElem?_eq_getElem (by omega)]
  exact ⟨_, rfl⟩

theorem TaggedRecord.iso?_eq (htag : r.tag = madtTypeIso) (hlength : 10 ≤ r.length) :
    ∃ x, r.iso? = some x := by
  rw [TaggedRecord.length] at hlength
  obtain ⟨gsi, hgsi⟩ := le32At_isSome (show 2 + 3 < r.body.length by omega)
  obtain ⟨flags, hflags⟩ := le16At_isSome (show 6 + 1 < r.body.length by omega)
  rw [iso?, if_pos htag, hgsi, hflags,
    List.getElem?_eq_getElem (by omega), List.getElem?_eq_getElem (by omega)]
  exact ⟨_, rfl⟩

end Decoding

/-! ## What is accepted -/

namespace Madt

variable {m m' : Madt} {r : TaggedRecord} {entries : List TaggedRecord}

theorem extend_nil (m : Madt) : m.extend [] = m := by
  simp [extend]

theorem extend_cons (m : Madt) (r : TaggedRecord) (entries : List TaggedRecord) :
    (m.extend [r]).extend entries = m.extend (r :: entries) := by
  have hcount : BitVec.ofNat 32 ((r :: entries).countP TaggedRecord.isUnknown) =
      BitVec.ofNat 32 ([r].countP TaggedRecord.isUnknown) +
        BitVec.ofNat 32 (entries.countP TaggedRecord.isUnknown) := by
    rw [← BitVec.ofNat_add, ← countP_append, singleton_append]
  simp only [extend, append_assoc, ← filterMap_append, singleton_append, hcount,
    BitVec.add_assoc]

/-- There is room for an entry of the type. -/
def Admits (m : Madt) (type : BitVec 8) : Prop :=
  (type = madtTypeLocalApic → m.localApics.length < acpiMaxMadtLocalApics) ∧
    (type = madtTypeIoApic → m.ioApics.length < acpiMaxMadtIoApics) ∧
    (type = madtTypeIso → m.isos.length < acpiMaxMadtIsos)

/-- The shape of the three checks. -/
theorem guarded_eq_ok_iff {short full : ℤ} {length size count max : ℕ} {x : Madt} :
    (if length < size then Except.error short
      else if max ≤ count then .error full else .ok x : Except ℤ Madt) = .ok m' ↔
      size ≤ length ∧ count < max ∧ m' = x := by
  by_cases hlength : length < size
  · rw [if_pos hlength]
    exact iff_of_false nofun fun h => absurd h.1 (Nat.not_le.mpr hlength)
  rw [if_neg hlength]
  by_cases hcount : max ≤ count
  · rw [if_pos hcount]
    exact iff_of_false nofun fun h => absurd h.2.1 (Nat.not_lt.mpr hcount)
  · rw [if_neg hcount, Except.ok.injEq, eq_comm]
    exact ⟨fun heq => ⟨Nat.not_lt.mp hlength, Nat.not_le.mp hcount, heq⟩, fun h => h.2.2⟩

theorem extend_singleton (m : Madt) (r : TaggedRecord) :
    m.extend [r] =
      { m with
        localApics := m.localApics ++ r.localApic?.toList
        ioApics := m.ioApics ++ r.ioApic?.toList
        isos := m.isos ++ r.iso?.toList
        unknownEntryCount := m.unknownEntryCount + if r.isUnknown then 1 else 0 } := by
  have hsingle : ∀ {α : Type} (f : TaggedRecord → Option α), [r].filterMap f = (f r).toList := by
    intro α f
    cases hf : f r <;> simp [hf]
  rw [extend, hsingle, hsingle, hsingle, countP_singleton]
  split_ifs <;> rfl

/-- **One entry** is accepted if it is long enough and there is room for it. -/
theorem accept_eq_ok_iff :
    m.accept r = .ok m' ↔
      TaggedRecord.minimalLength r.tag ≤ r.length ∧ m.Admits r.tag ∧ m' = m.extend [r] := by
  have hmin : 2 ≤ r.length := Nat.le_add_left 2 _
  rw [extend_singleton]
  by_cases hlocal : r.tag = madtTypeLocalApic
  · simp [accept, TaggedRecord.minimalLength, Admits, TaggedRecord.ioApic?, TaggedRecord.iso?,
      TaggedRecord.isUnknown, guarded_eq_ok_iff, hlocal, show madtTypeLocalApic ≠
      madtTypeIoApic by decide,
      show madtTypeLocalApic ≠ madtTypeIso by decide]
  by_cases hio : r.tag = madtTypeIoApic
  · simp [accept, TaggedRecord.minimalLength, Admits, TaggedRecord.localApic?, TaggedRecord.iso?,
      TaggedRecord.isUnknown, guarded_eq_ok_iff, hio, show madtTypeIoApic ≠
      madtTypeLocalApic by decide,
      show madtTypeIoApic ≠ madtTypeIso by decide]
  by_cases hiso : r.tag = madtTypeIso
  · simp [accept, TaggedRecord.minimalLength, Admits, TaggedRecord.localApic?, TaggedRecord.ioApic?,
      TaggedRecord.isUnknown, guarded_eq_ok_iff, hiso, show madtTypeIso ≠
      madtTypeLocalApic by decide,
      show madtTypeIso ≠ madtTypeIoApic by decide]
  · simp [accept, TaggedRecord.minimalLength, Admits, TaggedRecord.localApic?, TaggedRecord.ioApic?,
      TaggedRecord.iso?, TaggedRecord.isUnknown, hlocal, hio, hiso, hmin, eq_comm]

/-- How many entries of each type there are after an entry that is long enough. -/
theorem length_extend (hlong : TaggedRecord.minimalLength r.tag ≤ r.length) :
    (m.extend [r]).localApics.length = m.localApics.length + [r].countP
      (·.tag = madtTypeLocalApic) ∧
      (m.extend [r]).ioApics.length = m.ioApics.length + [r].countP (·.tag = madtTypeIoApic) ∧
      (m.extend [r]).isos.length = m.isos.length + [r].countP (·.tag = madtTypeIso) := by
  rw [extend_singleton]
  simp only [length_append, countP_singleton, decide_eq_true_eq]
  refine ⟨?_, ?_, ?_⟩
  · by_cases htag : r.tag = madtTypeLocalApic
    · rw [htag] at hlong
      obtain ⟨x, hx⟩ := TaggedRecord.localApic?_eq htag hlong
      rw [hx, if_pos htag]
      rfl
    · rw [TaggedRecord.localApic?, if_neg htag, if_neg htag]
      rfl
  · by_cases htag : r.tag = madtTypeIoApic
    · rw [htag] at hlong
      obtain ⟨x, hx⟩ := TaggedRecord.ioApic?_eq htag hlong
      rw [hx, if_pos htag]
      rfl
    · rw [TaggedRecord.ioApic?, if_neg htag, if_neg htag]
      rfl
  · by_cases htag : r.tag = madtTypeIso
    · rw [htag] at hlong
      obtain ⟨x, hx⟩ := TaggedRecord.iso?_eq htag hlong
      rw [hx, if_pos htag]
      rfl
    · rw [TaggedRecord.iso?, if_neg htag, if_neg htag]
      rfl

/-- Room for one entry. -/
theorem lt_max_iff {type type' : BitVec 8} {count max : ℕ} (hcount : count ≤ max)
    {body : List (BitVec 8)} :
    (type = type' → count < max) ↔ count + [(⟨type, body⟩ : TaggedRecord)].countP
      (·.tag = type') ≤ max := by
  rw [countP_singleton]
  by_cases htype : type = type'
  · simp [htype]
  · simp [htype, hcount]

/-- **All entries** are accepted if each is long enough and no type occurs too often. -/
theorem foldlM_accept_iff (hlocal : m.localApics.length ≤ acpiMaxMadtLocalApics)
    (hio : m.ioApics.length ≤ acpiMaxMadtIoApics) (hiso : m.isos.length ≤ acpiMaxMadtIsos) :
    entries.foldlM accept m = .ok m' ↔
      (∀ r ∈ entries, TaggedRecord.minimalLength r.tag ≤ r.length) ∧
        m.localApics.length + entries.countP (·.tag = madtTypeLocalApic) ≤ acpiMaxMadtLocalApics ∧
        m.ioApics.length + entries.countP (·.tag = madtTypeIoApic) ≤ acpiMaxMadtIoApics ∧
        m.isos.length + entries.countP (·.tag = madtTypeIso) ≤ acpiMaxMadtIsos ∧
        m' = m.extend entries := by
  induction entries generalizing m with
  | nil =>
      rw [extend_nil]
      simp only [foldlM_nil, countP_nil, Nat.add_zero]
      constructor
      · intro heq
        exact ⟨nofun, hlocal, hio, hiso, (Except.ok.inj heq).symm⟩
      · rintro ⟨-, -, -, -, rfl⟩
        rfl
  | cons r entries ih =>
      have hcount : ∀ p : TaggedRecord → Bool, (r :: entries).countP p =
        [r].countP p + entries.countP p :=
        fun p => by rw [← countP_append, singleton_append]
      have hadmits : m.Admits r.tag ↔
          m.localApics.length + [r].countP (·.tag = madtTypeLocalApic) ≤ acpiMaxMadtLocalApics ∧
            m.ioApics.length + [r].countP (·.tag = madtTypeIoApic) ≤ acpiMaxMadtIoApics ∧
            m.isos.length + [r].countP (·.tag = madtTypeIso) ≤ acpiMaxMadtIsos :=
        and_congr (lt_max_iff hlocal) (and_congr (lt_max_iff hio) (lt_max_iff hiso))
      rw [foldlM_cons, hcount, hcount, hcount, forall_mem_cons]
      constructor
      · intro hfold
        cases haccept : m.accept r with
        | error code =>
            rw [haccept] at hfold
            cases hfold
        | ok m₁ =>
            rw [haccept] at hfold
            obtain ⟨hlong, hroom, rfl⟩ := accept_eq_ok_iff.mp haccept
            obtain ⟨hlocal₁, hio₁, hiso₁⟩ := length_extend hlong (m := m)
            obtain ⟨hlocal', hio', hiso'⟩ := hadmits.mp hroom
            obtain ⟨hlongs, hlocal₂, hio₂, hiso₂, rfl⟩ :=
              (ih (by rw [hlocal₁]; exact hlocal') (by rw [hio₁]; exact hio')
              (by rw [hiso₁]; exact hiso')).mp hfold
            refine ⟨⟨hlong, hlongs⟩, by omega, by omega, by omega, extend_cons m r entries⟩
      · rintro ⟨⟨hlong, hlongs⟩, hlocal₂, hio₂, hiso₂, rfl⟩
        obtain ⟨hlocal₁, hio₁, hiso₁⟩ := length_extend hlong (m := m)
        have hroom : m.Admits r.tag := hadmits.mpr ⟨by omega, by omega, by omega⟩
        rw [accept_eq_ok_iff.mpr ⟨hlong, hroom, rfl⟩]
        refine (ih (by omega) (by omega) (by omega)).mpr
          ⟨hlongs, by omega, by omega, by omega, (extend_cons m r entries).symm⟩

/-- The entries are read off the list of the records a table starts with. -/
theorem foldlM_accept_empty {localApicAddress flags : BitVec 32} (hshort : ∀ r ∈ entries, r.Short) :
    entries.foldlM accept { localApicAddress, flags } = .ok m' ↔
      MadtFormat entries ∧ m' = extend { localApicAddress, flags } entries := by
  rw [foldlM_accept_iff (Nat.zero_le _) (Nat.zero_le _) (Nat.zero_le _)]
  simp only [length_nil, Nat.zero_add]
  exact ⟨fun ⟨hlong, hlocal, hio, hiso, heq⟩ => ⟨⟨hshort, hlong, hlocal, hio, hiso⟩, heq⟩,
    fun ⟨hformat, heq⟩ => ⟨hformat.long, hformat.localApics, hformat.ioApics, hformat.isos, heq⟩⟩

end Madt

/-! ## Entries and their bytes -/

/-- The bytes of a `uint32_t`. -/
def bytes32 (x : BitVec 32) : List (BitVec 8) :=
  [x.extractLsb' 0 8, x.extractLsb' 8 8, x.extractLsb' 16 8, x.extractLsb' 24 8]

/-- The bytes of a `uint16_t`. -/
def bytes16 (x : BitVec 16) : List (BitVec 8) := [x.extractLsb' 0 8, x.extractLsb' 8 8]

/-- What an entry says, with what follows its structure. -/
inductive MadtEntry
  | localApic (apic : MadtLocalApic) (padding : List (BitVec 8))
  | ioApic (id reserved : BitVec 8) (address gsiBase : BitVec 32) (padding : List (BitVec 8))
  | iso (override : MadtIso) (padding : List (BitVec 8))
  | unknown (type : BitVec 8) (body : List (BitVec 8))
  deriving DecidableEq, Repr

namespace MadtEntry

/-- The entry as a record. -/
def record : MadtEntry → TaggedRecord
  | localApic apic padding =>
      ⟨madtTypeLocalApic, [apic.processorUid, apic.apicId] ++ bytes32 apic.flags ++ padding⟩
  | ioApic id reserved address gsiBase padding =>
      ⟨madtTypeIoApic, [id, reserved] ++ bytes32 address ++ bytes32 gsiBase ++ padding⟩
  | iso override padding =>
      ⟨madtTypeIso, [override.bus, override.source] ++ bytes32 override.gsi ++
        bytes16 override.flags ++ padding⟩
  | unknown type body => ⟨type, body⟩

/-- An unknown type is none of the known ones. -/
def Proper : MadtEntry → Prop
  | unknown type _ => type ≠ madtTypeLocalApic ∧ type ≠ madtTypeIoApic ∧ type ≠ madtTypeIso
  | _ => True

def localApic? : MadtEntry → Option MadtLocalApic
  | localApic apic _ => some apic
  | _ => none

def ioApic? : MadtEntry → Option MadtIoApic
  | ioApic id _ address gsiBase _ => some ⟨id, address.setWidth 64, gsiBase⟩
  | _ => none

def iso? : MadtEntry → Option MadtIso
  | iso override _ => some override
  | _ => none

def isUnknown : MadtEntry → Bool
  | unknown _ _ => true
  | _ => false

end MadtEntry

theorem le32_bytes32 (x : BitVec 32) :
    le32 (x.extractLsb' 0 8) (x.extractLsb' 8 8) (x.extractLsb' 16 8) (x.extractLsb' 24 8) = x := by
  unfold le32
  repeat rw [BitVec.extractLsb'_append_extractLsb'_eq_extractLsb' (by rfl)]
  exact BitVec.extractLsb'_eq_self

theorem le16_bytes16 (x : BitVec 16) : le16 (x.extractLsb' 0 8) (x.extractLsb' 8 8) = x := by
  unfold le16
  rw [BitVec.extractLsb'_append_extractLsb'_eq_extractLsb' (by rfl)]
  exact BitVec.extractLsb'_eq_self

/-- **Decoding an encoded entry** gives the entry back. -/
theorem MadtEntry.decode_record {e : MadtEntry} (h : e.Proper) :
    e.record.localApic? = e.localApic? ∧ e.record.ioApic? = e.ioApic? ∧ e.record.iso? = e.iso? ∧
      e.record.isUnknown = e.isUnknown := by
  cases e with
  | localApic apic padding =>
      refine ⟨?_, rfl, rfl, rfl⟩
      exact congrArg (fun flags => some (MadtLocalApic.mk apic.processorUid apic.apicId flags))
        (le32_bytes32 apic.flags)
  | ioApic id reserved address gsiBase padding =>
      refine ⟨rfl, ?_, rfl, rfl⟩
      exact congrArg₂ (fun address gsiBase => some (MadtIoApic.mk id (address.setWidth 64) gsiBase))
        (le32_bytes32 address) (le32_bytes32 gsiBase)
  | iso override padding =>
      refine ⟨rfl, rfl, ?_, rfl⟩
      exact congrArg₂ (fun gsi flags => some (MadtIso.mk override.bus override.source gsi flags))
        (le32_bytes32 override.gsi) (le16_bytes16 override.flags)
  | unknown type body =>
      obtain ⟨hlocal, hio, hiso⟩ := h
      refine ⟨if_neg hlocal, if_neg hio, if_neg hiso, ?_⟩
      simp [record, TaggedRecord.isUnknown, isUnknown, hlocal, hio, hiso]

end Batos
