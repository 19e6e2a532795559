import Batos.Acpi.Model

/-!
# Discovery of the I/O APICs

`ioapic.c` probes every I/O APIC the MADT lists.  Each one serves a range of global system
interrupts (GSIs), from the base the MADT gives on, and how many there are only its own
version register tells. `ioapic_init` therefore checks that the ranges do not overlap when it
has seen all of them.

The registers of an I/O APIC are behind a selector and a window; selecting one and reading the
window is modelled as one read of the register of that number, in the I/O APIC at that
physical address.

A discovery that succeeds has recorded the entries of the MADT in their order, and the ranges are
disjoint (`ioapicInit_eq_zero`).  One that fails has left no instance behind that counts
(`count_of_ioapicInit`), wherever it has stopped.
-/

namespace Batos

variable {entries : List MadtIoApic} {i : ℕ} {s : IoApics}

/-- The registers of the I/O APICs, by physical address and number. -/
abbrev IoApicRegisters := Word → BitVec 8 → BitVec 32

/-- `IOAPIC_REG_ID`. -/
def ioapicRegId : BitVec 8 := 0

/-- `IOAPIC_REG_VERSION`. -/
def ioapicRegVersion : BitVec 8 := 1

/-- `IOAPIC_MAX_REDIR_INDEX`. -/
def ioapicMaxRedirIndex : BitVec 8 := 119

/-- `IOAPIC_MAX_INSTANCES`. -/
def ioapicMaxInstances : ℕ := 256

/-- `struct ioapic_instance`. -/
structure IoApicInstance where
  physicalAddress : Word := 0
  base : Word := 0
  id : BitVec 8 := 0
  version : BitVec 8 := 0
  maxRedirectionEntry : BitVec 8 := 0
  gsiBase : BitVec 32 := 0
  initialized : Bool := false
  deriving DecidableEq, Repr

/-- The variables of `ioapic.c`; `first` are the aliases for instance 0. -/
structure IoApics where
  instances : ℕ → IoApicInstance := fun _ => {}
  count : ℕ := 0
  first : Word × Word × BitVec 8 × BitVec 8 × BitVec 8 := (0, 0, 0, 0, 0)

/-- `ioapic_phys_to_virt`; 0 is a null pointer. -/
def ioapicPhysToVirt (hhdm physical : Word) : Word :=
  if physical > -1 - hhdm then 0 else physical + hhdm

/-- The version a version register holds. -/
def versionOf (versionRegister : BitVec 32) : BitVec 8 := (versionRegister &&& 0xFF).setWidth 8

/-- The number of the last redirection entry, as a version register holds it. -/
def maxRedirectionOf (versionRegister : BitVec 32) : BitVec 8 :=
  ((versionRegister >>> 16) &&& 0xFF).setWidth 8

/-- What `ioapic_init` records of an I/O APIC. -/
def probeIoApic (registers : IoApicRegisters) (hhdm : Word) (entry : MadtIoApic) :
    IoApicInstance where
  physicalAddress := entry.address
  base := ioapicPhysToVirt hhdm entry.address
  id := ((registers entry.address ioapicRegId >>> 24) &&& 0x0F).setWidth 8
  version := versionOf (registers entry.address ioapicRegVersion)
  maxRedirectionEntry := maxRedirectionOf (registers entry.address ioapicRegVersion)
  gsiBase := entry.gsiBase
  initialized := true

/-- The first loop of `ioapic_init`, from the entry of the given number on. -/
def ioapicDiscover (registers : IoApicRegisters) (hhdm : Word) : ℕ → List MadtIoApic →
    IoApics → ℤ × IoApics
  | _, [], s => (0, s)
  | i, entry :: entries, s =>
      if entry.address = 0 then (-4, { s with count := 0 })
      else if entry.address &&& 0xFFF ≠ 0 then (-5, { s with count := 0 })
      else if (List.range i).any fun j => (s.instances j).physicalAddress = entry.address then
        (-6, { s with count := 0 })
      else if ioapicPhysToVirt hhdm entry.address = 0 then (-7, { s with count := 0 })
      else if maxRedirectionOf (registers entry.address ioapicRegVersion) > ioapicMaxRedirIndex then
        (-8, { s with count := 0 })
      else if versionOf (registers entry.address ioapicRegVersion) = 0 then
        (-9, { s with count := 0 })
      else
        ioapicDiscover registers hhdm (i + 1) entries
          { s with
            instances := Function.update s.instances i (probeIoApic registers hhdm entry)
            count := s.count + 1 }

namespace IoApicInstance

/-- The first GSI of an I/O APIC, in 64 bits. -/
def start (a : IoApicInstance) : Word := a.gsiBase.setWidth 64

/-- The last GSI of an I/O APIC, in 64 bits. -/
def last (a : IoApicInstance) : Word := a.start + a.maxRedirectionEntry.setWidth 64

/-- The ranges of two I/O APICs have a GSI in common. -/
def overlaps (a b : IoApicInstance) : Bool := a.start ≤ b.last && b.start ≤ a.last

end IoApicInstance

/-- The loops of `ioapic_init` over all pairs. -/
def IoApics.overlapping (s : IoApics) : Bool :=
  (List.range s.count).any fun i =>
    (List.range' (i + 1) (s.count - (i + 1))).any fun j => (s.instances i).overlaps (s.instances j)

/-- `ioapic_init`, on the list the MADT has been parsed to. -/
def ioapicInit (registers : IoApicRegisters) (hhdm : Word) (entries : List MadtIoApic)
    (s : IoApics) :
    ℤ × IoApics :=
  if entries.length = 0 then (-1, s)
  else if entries.length > ioapicMaxInstances then (-2, s)
  else
    match ioapicDiscover registers hhdm 0 entries {} with
    | (code, s) =>
        if code ≠ 0 then (code, s)
        else if s.overlapping then (-10, {})
        else
          let a := s.instances 0
          (0, { s with
            first := (a.physicalAddress, a.base, a.id, a.version, a.maxRedirectionEntry) })

/-! ## What a discovery leaves -/

section Discovery

variable {registers : IoApicRegisters} {hhdm : Word}

/-- **A discovery that succeeds** has recorded every entry, and none has too many redirection
entries. -/
theorem ioapicDiscover_eq_zero {s' : IoApics}
    (h : ioapicDiscover registers hhdm i entries s = (0, s')) :
    s'.count = s.count + entries.length ∧ (∀ j, j < i → s'.instances j = s.instances j) ∧
      ∀ k entry, entries[k]? = some entry → s'.instances (i + k) =
        probeIoApic registers hhdm entry ∧
        maxRedirectionOf (registers entry.address ioapicRegVersion) ≤ ioapicMaxRedirIndex := by
  induction entries generalizing i s with
  | nil =>
      obtain rfl := congrArg Prod.snd h
      exact ⟨rfl, fun _ _ => rfl, fun k entry hk => by simp at hk⟩
  | cons entry entries ih =>
      rw [ioapicDiscover] at h
      split_ifs at h with haddress haligned hduplicate hnull hmax hversion
      · cases congrArg Prod.fst h
      · cases congrArg Prod.fst h
      · cases congrArg Prod.fst h
      · cases congrArg Prod.fst h
      · cases congrArg Prod.fst h
      · cases congrArg Prod.fst h
      · obtain ⟨hcount, hbefore, hrecorded⟩ := ih h
        refine ⟨?_, fun j hj => ?_, fun k e hk => ?_⟩
        · rw [hcount, List.length_cons]
          dsimp only
          omega
        · rw [hbefore j (by omega)]
          exact Function.update_of_ne (by omega) _ _
        · cases k with
          | zero =>
              obtain rfl := Option.some.inj hk
              rw [Nat.add_zero, hbefore i (Nat.lt_succ_self i)]
              exact ⟨Function.update_self .., BitVec.not_lt.mp hmax⟩
          | succ k =>
              rw [show i + (k + 1) = i + 1 + k by omega]
              exact hrecorded k e hk

/-- **A discovery that fails** leaves nothing that counts. -/
theorem count_of_ioapicDiscover (h : (ioapicDiscover registers hhdm i entries s).1 ≠ 0) :
    (ioapicDiscover registers hhdm i entries s).2.count = 0 := by
  induction entries generalizing i s with
  | nil => exact absurd rfl h
  | cons entry entries ih =>
      rw [ioapicDiscover] at h ⊢
      split_ifs at h ⊢
      · rfl
      · rfl
      · rfl
      · rfl
      · rfl
      · rfl
      · exact ih h

theorem IoApics.overlapping_eq_false_iff :
    s.overlapping = false ↔
      ∀ i j, i < j → j < s.count → (s.instances i).overlaps (s.instances j) = false := by
  rw [overlapping, List.any_eq_false]
  constructor
  · intro h i j hij hj
    have hi := h i (List.mem_range.mpr (by omega))
    rw [Bool.not_eq_true, List.any_eq_false] at hi
    exact Bool.not_eq_true _ ▸ hi j (List.mem_range'_1.mpr (by omega))
  · intro h i _ hany
    obtain ⟨j, hj, hoverlaps⟩ := List.any_eq_true.mp hany
    rw [List.mem_range'_1] at hj
    rw [h i j (by omega) (by omega)] at hoverlaps
    cases hoverlaps

/-- The I/O APICs of a MADT: recorded in its order, with disjoint ranges. -/
structure IoApics.Discovered (s : IoApics) (registers : IoApicRegisters) (hhdm : Word)
    (entries : List MadtIoApic) : Prop where
  count : s.count = entries.length
  recorded : ∀ i entry, entries[i]? = some entry → s.instances i = probeIoApic registers hhdm entry
  bounded : ∀ entry ∈ entries,
    maxRedirectionOf (registers entry.address ioapicRegVersion) ≤ ioapicMaxRedirIndex
  disjoint : ∀ i j, i < j → j < s.count → (s.instances i).overlaps (s.instances j) = false

/-- **A success of `ioapic_init`.** -/
theorem ioapicInit_eq_zero {s₀ : IoApics} (h : ioapicInit registers hhdm entries s₀ = (0, s)) :
    0 < entries.length ∧ s.Discovered registers hhdm entries := by
  unfold ioapicInit at h
  split_ifs at h with hempty hmany
  · cases congrArg Prod.fst h
  · cases congrArg Prod.fst h
  obtain ⟨code, s₁, hdiscover⟩ : ∃ code s₁, ioapicDiscover registers hhdm 0 entries {} =
    (code, s₁) := ⟨_, _, rfl⟩
  rw [hdiscover] at h
  dsimp only at h
  split_ifs at h with hcode hoverlapping
  · exact absurd (congrArg Prod.fst h) hcode
  · cases congrArg Prod.fst h
  obtain rfl : code = 0 := not_not.mp hcode
  obtain rfl := congrArg Prod.snd h
  obtain ⟨hcount, -, hrecorded⟩ := ioapicDiscover_eq_zero hdiscover
  rw [Bool.not_eq_true] at hoverlapping
  refine ⟨Nat.pos_of_ne_zero hempty, hcount.trans (Nat.zero_add _), fun i entry hentry => ?_,
    fun entry hmem => ?_, IoApics.overlapping_eq_false_iff.mp hoverlapping⟩
  · have hi := (hrecorded i entry hentry).1
    rwa [Nat.zero_add] at hi
  · obtain ⟨i, hi⟩ := List.mem_iff_getElem?.mp hmem
    exact (hrecorded i entry hi).2

/-- **A failure of `ioapic_init`** leaves nothing that counts, if nothing did before. -/
theorem count_of_ioapicInit (hs : s.count = 0) (h : (ioapicInit registers hhdm entries s).1 ≠ 0) :
    (ioapicInit registers hhdm entries s).2.count = 0 := by
  unfold ioapicInit at h ⊢
  split_ifs at h ⊢
  · exact hs
  · exact hs
  dsimp only at h ⊢
  split_ifs at h ⊢ with hcode
  · exact count_of_ioapicDiscover hcode
  · rfl
  · exact absurd rfl h

end Discovery

end Batos
