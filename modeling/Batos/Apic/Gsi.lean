import Batos.Apic.IoApic

/-!
# Global system interrupts

`gsi.c` finds the I/O APIC that serves a GSI, and the redirection entry for it.  An IRQ of the
ISA bus is the GSI of the same number, unless an interrupt source override of the MADT says
otherwise.

The ranges of the I/O APICs have been compared in 64 bits, and a GSI is resolved in 32: the
entry is `gsi - base`, which does not wrap as the GSI is in the range.  A range may end behind
the last GSI.  As no two ranges overlap, a GSI is resolved to the only entry there is for it
(`gsi_resolution_exact`).
-/

namespace Batos

open BitVec
open Option (some)

variable {a : IoApicInstance} {gsi r : BitVec 32} {i : ℕ} {flags : BitVec 16} {s : IoApics}
  {isos : List MadtIso} {irq : BitVec 8} {route : GsiIrqRoute} {registers : IoApicRegisters}
  {hhdm : Word} {entries : List MadtIoApic}

/-- `GSI_POLARITY_*`. -/
inductive GsiPolarity
  | conforming
  | high
  | low
  deriving DecidableEq, Repr

/-- `GSI_TRIGGER_*`. -/
inductive GsiTrigger
  | conforming
  | edge
  | level
  deriving DecidableEq, Repr

/-- `struct gsi_irq_route`. -/
structure GsiIrqRoute where
  irq : BitVec 8
  gsi : BitVec 32
  ioapicIndex : ℕ
  ioapicRedirectionIndex : BitVec 32
  polarity : GsiPolarity
  triggerMode : GsiTrigger
  hasIso : Bool
  deriving DecidableEq, Repr

/-! ## The I/O APICs as `gsi.c` sees them -/

/-- `ioapic_get_gsi_base_at`. -/
def ioapicGetGsiBaseAt (s : IoApics) (index : ℕ) : BitVec 32 :=
  if index ≥ s.count then 0 else (s.instances index).gsiBase

/-- `ioapic_get_max_redirection_entry_at`. -/
def ioapicGetMaxRedirectionEntryAt (s : IoApics) (index : ℕ) : BitVec 8 :=
  if index ≥ s.count then 0 else (s.instances index).maxRedirectionEntry

/-- `ioapic_gsi_in_range`. -/
def ioapicGsiInRange (s : IoApics) (index : ℕ) (gsi : BitVec 32) : ℤ :=
  if index ≥ s.count then -1
  else if (s.instances index).initialized = false then -2
  else if gsi.setWidth 64 < (s.instances index).start then 0
  else if gsi.setWidth 64 > (s.instances index).last then 0
  else 1

/-! ## Resolution -/

/-- `gsi_init`: the code and `gsi_initialized`. -/
def gsiInit (entries : List MadtIoApic) (initialized : Bool) : ℤ × Bool :=
  if entries.length = 0 then (-1, initialized) else (0, true)

/-- The loop of `gsi_resolve_gsi`. -/
def gsiSearch (s : IoApics) (gsi : BitVec 32) : List ℕ → Except ℤ (ℕ × BitVec 32)
  | [] => .error (-6)
  | i :: rest =>
      if ioapicGsiInRange s i gsi < 0 then .error (-4)
      else if ioapicGsiInRange s i gsi = 0 then gsiSearch s gsi rest
      else if gsi - ioapicGetGsiBaseAt s i > (ioapicGetMaxRedirectionEntryAt s i).setWidth 32 then
        .error (-5)
      else .ok (i, gsi - ioapicGetGsiBaseAt s i)

/-- `gsi_resolve_gsi`: the I/O APIC and its redirection entry, or the code. -/
def gsiResolveGsi (initialized : Bool) (s : IoApics) (gsi : BitVec 32) : Except ℤ (ℕ × BitVec 32) :=
  if initialized = false then .error (-1)
  else if s.count = 0 then .error (-3)
  else gsiSearch s gsi (List.range s.count)

/-- `gsi_decode_polarity`. -/
def gsiDecodePolarity (flags : BitVec 16) : Option GsiPolarity :=
  if flags &&& 0x0003 = 0x0000 then some .conforming
  else if flags &&& 0x0003 = 0x0001 then some .high
  else if flags &&& 0x0003 = 0x0003 then some .low
  else none

/-- `gsi_decode_trigger`. -/
def gsiDecodeTrigger (flags : BitVec 16) : Option GsiTrigger :=
  if flags &&& 0x000C = 0x0000 then some .conforming
  else if flags &&& 0x000C = 0x0004 then some .edge
  else if flags &&& 0x000C = 0x000C then some .level
  else none

/-- `gsi_find_iso`: the first override of an IRQ of the ISA bus, which is bus 0. -/
def gsiFindIso (isos : List MadtIso) (irq : BitVec 8) : Option MadtIso :=
  isos.find? fun entry => entry.bus = 0 && entry.source = irq

/-- "Conforming" on the ISA bus is active high. -/
def GsiPolarity.onIsa : GsiPolarity → GsiPolarity
  | .conforming => .high
  | polarity => polarity

/-- "Conforming" on the ISA bus is edge-triggered. -/
def GsiTrigger.onIsa : GsiTrigger → GsiTrigger
  | .conforming => .edge
  | trigger => trigger

/-- `gsi_resolve_irq`. -/
def gsiResolveIrq (initialized : Bool) (s : IoApics) (isos : List MadtIso) (irq : BitVec 8) :
    Except ℤ GsiIrqRoute :=
  if initialized = false then .error (-1)
  else do
    let (gsi, polarity, triggerMode, hasIso) ←
      match gsiFindIso isos irq with
      | none => .ok (irq.setWidth 32, GsiPolarity.conforming, GsiTrigger.conforming, false)
      | some iso =>
          match gsiDecodePolarity iso.flags with
          | none => .error (-4)
          | some polarity =>
              match gsiDecodeTrigger iso.flags with
              | none => .error (-5)
              | some triggerMode => .ok (iso.gsi, polarity, triggerMode, true)
    match gsiResolveGsi initialized s gsi with
    | .error _ => .error (-6)
    | .ok (ioapicIndex, ioapicRedirectionIndex) =>
        return ⟨irq, gsi, ioapicIndex, ioapicRedirectionIndex, polarity.onIsa,
          triggerMode.onIsa, hasIso⟩

/-! ## Ranges -/

section Ranges

variable {registers : IoApicRegisters} {hhdm : Word} {entries : List MadtIoApic} {s : IoApics}

theorem IoApicInstance.toNat_start (a : IoApicInstance) : a.start.toNat = a.gsiBase.toNat := by
  have hlt := a.gsiBase.isLt
  rw [start, toNat_setWidth]
  exact Nat.mod_eq_of_lt (by omega)

theorem IoApicInstance.toNat_last (a : IoApicInstance) :
    a.last.toNat = a.gsiBase.toNat + a.maxRedirectionEntry.toNat := by
  have hlt := a.gsiBase.isLt
  have hmax := a.maxRedirectionEntry.isLt
  rw [last, toNat_add, toNat_start, toNat_setWidth]
  omega

/-- The GSI is in the range of an I/O APIC. -/
def IoApicInstance.Owns (a : IoApicInstance) (gsi : BitVec 32) : Prop :=
  a.gsiBase.toNat ≤ gsi.toNat ∧ gsi.toNat ≤ a.gsiBase.toNat + a.maxRedirectionEntry.toNat

instance (a : IoApicInstance) (gsi : BitVec 32) : Decidable (a.Owns gsi) :=
  inferInstanceAs (Decidable (_ ∧ _))

/-- Two ranges with a GSI in common overlap. -/
theorem IoApicInstance.Owns.overlaps {b : IoApicInstance} (ha : a.Owns gsi) (hb : b.Owns gsi) :
    a.overlaps b = true ∧ b.overlaps a = true := by
  obtain ⟨ha₁, ha₂⟩ := ha
  obtain ⟨hb₁, hb₂⟩ := hb
  simp only [IoApicInstance.overlaps, Bool.and_eq_true, decide_eq_true_eq, le_def,
    toNat_start, toNat_last]
  omega

/-- A GSI in a range is the base and an entry, and nothing else is. -/
theorem IoApicInstance.owns_iff :
    a.Owns gsi ∧ r = gsi - a.gsiBase ↔
      gsi.toNat = a.gsiBase.toNat + r.toNat ∧ r.toNat ≤ a.maxRedirectionEntry.toNat := by
  have hgsi := gsi.isLt
  have hbase := a.gsiBase.isLt
  constructor
  · rintro ⟨⟨hlow, hhigh⟩, rfl⟩
    rw [toNat_sub_of_le (le_def.mpr hlow)]
    omega
  · rintro ⟨hsum, hle⟩
    refine ⟨⟨by omega, by omega⟩, eq_of_toNat_eq ?_⟩
    rw [toNat_sub_of_le (le_def.mpr (by omega))]
    omega

theorem ioapicGsiInRange_eq (hi : i < s.count) (hinit : (s.instances i).initialized = true)
    (gsi : BitVec 32) : ioapicGsiInRange s i gsi = if (s.instances i).Owns gsi then 1 else 0 := by
  have hgsi : (gsi.setWidth 64).toNat = gsi.toNat := by
    have hlt := gsi.isLt
    rw [toNat_setWidth]
    exact Nat.mod_eq_of_lt (by omega)
  rw [ioapicGsiInRange, if_neg (Nat.not_le.mpr hi), if_neg (by rw [hinit]; decide)]
  simp only [gt_iff_lt, lt_def, IoApicInstance.toNat_start, IoApicInstance.toNat_last, hgsi,
    IoApicInstance.Owns]
  split_ifs <;> first | rfl | omega

/-- **The search** finds the first I/O APIC whose range the GSI is in. -/
theorem gsiSearch_eq (gsi : BitVec 32) {l : List ℕ}
    (hl : ∀ i ∈ l, i < s.count ∧ (s.instances i).initialized = true) :
    gsiSearch s gsi l =
      match l.find? fun i => (s.instances i).Owns gsi with
      | none => .error (-6)
      | some i => .ok (i, gsi - (s.instances i).gsiBase) := by
  induction l with
  | nil => rfl
  | cons i rest ih =>
      rw [List.forall_mem_cons] at hl
      obtain ⟨⟨hi, hinit⟩, hrest⟩ := hl
      rw [gsiSearch, ioapicGsiInRange_eq hi hinit, List.find?_cons]
      by_cases howns : (s.instances i).Owns gsi
      · have hfits : ¬ gsi - (s.instances i).gsiBase >
            (s.instances i).maxRedirectionEntry.setWidth 32 := by
          have hindex := IoApicInstance.owns_iff.mp ⟨howns, rfl⟩
          have hlt := (s.instances i).maxRedirectionEntry.isLt
          rw [gt_iff_lt, lt_def, toNat_setWidth]
          omega
        rw [if_pos howns, if_neg (by decide), if_neg (by decide), ioapicGetGsiBaseAt,
          ioapicGetMaxRedirectionEntryAt, if_neg (Nat.not_le.mpr hi), if_neg (Nat.not_le.mpr hi),
          if_neg hfits,
          decide_eq_true howns]
      · rw [if_neg howns, if_neg (by decide), if_pos rfl, ih hrest, decide_eq_false howns]

variable (h : s.Discovered registers hhdm entries)

include h

theorem IoApics.Discovered.instance_eq (hi : i < s.count) :
    ∃ entry, entries[i]? = some entry ∧ s.instances i = probeIoApic registers hhdm entry := by
  rw [h.count] at hi
  exact ⟨entries[i], List.getElem?_eq_getElem hi, h.recorded i _ (List.getElem?_eq_getElem hi)⟩

/-- A GSI is in one range at most. -/
theorem IoApics.Discovered.owns_unique {j : ℕ} (hi : i < s.count) (hj : j < s.count)
    (howns : (s.instances i).Owns gsi) (howns' : (s.instances j).Owns gsi) : i = j := by
  rcases Nat.lt_trichotomy i j with hlt | heq | hlt
  · have hoverlaps := (howns.overlaps howns').1
    rw [h.disjoint i j hlt hj] at hoverlaps
    cases hoverlaps
  · exact heq
  · have hoverlaps := (howns.overlaps howns').2
    rw [h.disjoint j i hlt hi] at hoverlaps
    cases hoverlaps

/-- **A GSI is resolved** to the I/O APIC whose range it is in. -/
theorem IoApics.Discovered.gsiResolveGsi_eq_ok_iff :
    gsiResolveGsi true s gsi = .ok (i, r) ↔
      i < s.count ∧ (s.instances i).Owns gsi ∧ r = gsi - (s.instances i).gsiBase := by
  have hall : ∀ i ∈ List.range s.count, i < s.count ∧ (s.instances i).initialized = true := by
    intro i hi
    have hlt := List.mem_range.mp hi
    obtain ⟨entry, -, heq⟩ := h.instance_eq hlt
    rw [heq]
    exact ⟨hlt, rfl⟩
  rw [gsiResolveGsi, if_neg (by decide)]
  by_cases hcount : s.count = 0
  · rw [if_pos hcount]
    exact iff_of_false nofun fun hi => absurd hi.1 (by omega)
  rw [if_neg hcount, gsiSearch_eq gsi hall]
  constructor
  · intro hfound
    split at hfound
    · cases hfound
    · next j hj =>
        obtain ⟨rfl, rfl⟩ := Prod.mk.inj (Except.ok.inj hfound)
        have howns := List.find?_some hj
        exact ⟨List.mem_range.mp (List.mem_of_find?_eq_some hj), of_decide_eq_true howns, rfl⟩
  · rintro ⟨hi, howns, rfl⟩
    split
    · next hnone =>
        have hnot := List.find?_eq_none.mp hnone i (List.mem_range.mpr hi)
        exact absurd (decide_eq_true howns) hnot
    · next j hj =>
        have howns' := List.find?_some hj
        obtain rfl := h.owns_unique hi (List.mem_range.mp (List.mem_of_find?_eq_some hj)) howns
          (of_decide_eq_true howns')
        rfl

end Ranges

/-! ## Routes -/

/-- The route of an IRQ is that of its first override, or its own. -/
structure GsiIrqRoute.Follows (route : GsiIrqRoute) (isos : List MadtIso) (irq : BitVec 8) :
    Prop where
  source : route.irq = irq
  override : ∀ iso, (isos.find? fun entry => entry.bus = 0 && entry.source = irq) = some iso →
    route.gsi = iso.gsi ∧ route.hasIso = true ∧
      (iso.flags &&& 3 = 0 ∨ iso.flags &&& 3 = 1 ∨ iso.flags &&& 3 = 3) ∧
      (iso.flags &&& 12 = 0 ∨ iso.flags &&& 12 = 4 ∨ iso.flags &&& 12 = 12) ∧
      route.polarity = (if iso.flags &&& 3 = 3 then .low else .high) ∧
      route.triggerMode = (if iso.flags &&& 12 = 12 then .level else .edge)
  identity : (isos.find? fun entry => entry.bus = 0 && entry.source = irq) = none →
    route.gsi = irq.setWidth 32 ∧ route.hasIso = false ∧ route.polarity = .high ∧
    route.triggerMode = .edge

theorem gsiDecodePolarity_eq_some {polarity : GsiPolarity}
    (h : gsiDecodePolarity flags = some polarity) :
    (flags &&& 3 = 0 ∨ flags &&& 3 = 1 ∨ flags &&& 3 = 3) ∧
      polarity.onIsa = if flags &&& 3 = 3 then .low else .high := by
  unfold gsiDecodePolarity at h
  split_ifs at h with hconforming hhigh hlow
  · obtain rfl := some.inj h
    exact ⟨.inl hconforming, by rw [hconforming]; rfl⟩
  · obtain rfl := some.inj h
    exact ⟨.inr (.inl hhigh), by rw [hhigh]; rfl⟩
  · obtain rfl := some.inj h
    exact ⟨.inr (.inr hlow), by rw [hlow]; rfl⟩

theorem gsiDecodeTrigger_eq_some {trigger : GsiTrigger}
    (h : gsiDecodeTrigger flags = some trigger) :
    (flags &&& 12 = 0 ∨ flags &&& 12 = 4 ∨ flags &&& 12 = 12) ∧
      trigger.onIsa = if flags &&& 12 = 12 then .level else .edge := by
  unfold gsiDecodeTrigger at h
  split_ifs at h with hconforming hedge hlevel
  · obtain rfl := some.inj h
    exact ⟨.inl hconforming, by rw [hconforming]; rfl⟩
  · obtain rfl := some.inj h
    exact ⟨.inr (.inl hedge), by rw [hedge]; rfl⟩
  · obtain rfl := some.inj h
    exact ⟨.inr (.inr hlevel), by rw [hlevel]; rfl⟩

/-- **The routes of `gsi_resolve_irq`.** -/
theorem gsiResolveIrq_eq_ok {initialized : Bool}
    (h : gsiResolveIrq initialized s isos irq = .ok route) :
    route.Follows isos irq ∧
      gsiResolveGsi initialized s route.gsi =
        .ok (route.ioapicIndex, route.ioapicRedirectionIndex) := by
  unfold gsiResolveIrq at h
  split_ifs at h
  cases hiso : gsiFindIso isos irq with
  | none =>
      rw [hiso] at h
      simp only [bind, Except.bind] at h
      cases hresolve : gsiResolveGsi initialized s (irq.setWidth 32) with
      | error code =>
          rw [hresolve] at h
          cases h
      | ok pair =>
          rw [hresolve] at h
          obtain rfl := Except.ok.inj h
          refine ⟨⟨rfl, fun iso hfound => ?_, fun _ => ⟨rfl, rfl, rfl, rfl⟩⟩, hresolve⟩
          rw [gsiFindIso, hfound] at hiso
          cases hiso
  | some iso =>
      rw [hiso] at h
      simp only [bind, Except.bind] at h
      cases hpolarity : gsiDecodePolarity iso.flags with
      | none =>
          rw [hpolarity] at h
          cases h
      | some polarity =>
          cases htrigger : gsiDecodeTrigger iso.flags with
          | none =>
              rw [hpolarity, htrigger] at h
              cases h
          | some trigger =>
              rw [hpolarity, htrigger] at h
              dsimp only at h
              cases hresolve : gsiResolveGsi initialized s iso.gsi with
              | error code =>
                  rw [hresolve] at h
                  cases h
              | ok pair =>
                  rw [hresolve] at h
                  obtain rfl := Except.ok.inj h
                  obtain ⟨hpolarities, hpolarity'⟩ := gsiDecodePolarity_eq_some hpolarity
                  obtain ⟨htriggers, htrigger'⟩ := gsiDecodeTrigger_eq_some htrigger
                  refine ⟨⟨rfl, fun iso' hfound => ?_, fun hnone => ?_⟩, hresolve⟩
                  · rw [gsiFindIso, hfound] at hiso
                    obtain rfl := some.inj hiso
                    exact ⟨rfl, rfl, hpolarities, htriggers, hpolarity', htrigger'⟩
                  · rw [gsiFindIso, hnone] at hiso
                    cases hiso

/-! ## Exactness -/

/-- The entry of an I/O APIC of the MADT that a GSI is. -/
def MadtIoApic.Serves (registers : IoApicRegisters) (entries : List MadtIoApic)
    (gsi : BitVec 32) (i : ℕ) (r : BitVec 32) : Prop :=
  ∃ entry, entries[i]? = some entry ∧ gsi.toNat = entry.gsiBase.toNat + r.toNat ∧
    r.toNat ≤ (maxRedirectionOf (registers entry.address ioapicRegVersion)).toNat

/-- Every GSI is resolved to the entry it is, and the routes of the IRQs are those of the MADT. -/
structure IoApics.Resolves (s : IoApics) (initialized : Bool) (registers : IoApicRegisters)
    (entries : List MadtIoApic) (isos : List MadtIso) : Prop where
  entry : ∀ gsi i r, gsiResolveGsi initialized s gsi = .ok (i, r) ↔
    MadtIoApic.Serves registers entries gsi i r
  bounded : ∀ entry ∈ entries,
    (maxRedirectionOf (registers entry.address ioapicRegVersion)).toNat ≤ 119
  unique : ∀ gsi i r i' r', MadtIoApic.Serves registers entries gsi i r →
    MadtIoApic.Serves registers entries gsi i' r' → i = i' ∧ r = r'
  injective : ∀ gsi gsi' pair, gsiResolveGsi initialized s gsi = .ok pair →
    gsiResolveGsi initialized s gsi' = .ok pair → gsi = gsi'
  routes : ∀ irq route, gsiResolveIrq initialized s isos irq = .ok route →
    (route.polarity = .high ∨ route.polarity = .low) ∧
      (route.triggerMode = .edge ∨ route.triggerMode = .level) ∧ route.Follows isos irq ∧
      gsiResolveGsi initialized s route.gsi = .ok (route.ioapicIndex, route.ioapicRedirectionIndex)

theorem GsiIrqRoute.Follows.settled (h : route.Follows isos irq) :
    (route.polarity = .high ∨ route.polarity = .low) ∧
      (route.triggerMode = .edge ∨ route.triggerMode = .level) := by
  cases hiso : isos.find? fun entry => entry.bus = 0 && entry.source = irq with
  | none =>
      obtain ⟨-, -, hpolarity, htrigger⟩ := h.identity hiso
      exact ⟨.inl hpolarity, .inl htrigger⟩
  | some iso =>
      obtain ⟨-, -, -, -, hpolarity, htrigger⟩ := h.override iso hiso
      rw [hpolarity, htrigger]
      constructor
      · split_ifs
        · exact .inr rfl
        · exact .inl rfl
      · split_ifs
        · exact .inr rfl
        · exact .inl rfl

theorem IoApics.Discovered.serves_iff (h : s.Discovered registers hhdm entries) :
    gsiResolveGsi true s gsi = .ok (i, r) ↔ MadtIoApic.Serves registers entries gsi i r := by
  rw [h.gsiResolveGsi_eq_ok_iff, IoApicInstance.owns_iff, MadtIoApic.Serves]
  constructor
  · rintro ⟨hi, hsum, hle⟩
    obtain ⟨entry, hentry, heq⟩ := h.instance_eq hi
    rw [heq] at hsum hle
    exact ⟨entry, hentry, hsum, hle⟩
  · rintro ⟨entry, hentry, hsum, hle⟩
    obtain ⟨hi, -⟩ := List.getElem?_eq_some_iff.mp hentry
    rw [h.recorded i entry hentry, h.count]
    exact ⟨hi, hsum, hle⟩

theorem IoApics.Discovered.resolves (h : s.Discovered registers hhdm entries)
    (isos : List MadtIso) :
    s.Resolves true registers entries isos where
  entry gsi i r := h.serves_iff
  bounded entry hmem := le_def.mp (h.bounded entry hmem)
  unique gsi i r i' r' hserves hserves' := by
    have heq := (h.serves_iff.mpr hserves).symm.trans (h.serves_iff.mpr hserves')
    exact Prod.mk.inj (Except.ok.inj heq)
  injective gsi gsi' pair hgsi hgsi' := by
    obtain ⟨entry, hentry, hsum, -⟩ := h.serves_iff.mp hgsi
    obtain ⟨entry', hentry', hsum', -⟩ := h.serves_iff.mp hgsi'
    obtain rfl := some.inj (hentry.symm.trans hentry')
    exact eq_of_toNat_eq (hsum.trans hsum'.symm)
  routes irq route hroute := by
    obtain ⟨hfollows, hresolve⟩ := gsiResolveIrq_eq_ok hroute
    exact ⟨hfollows.settled.1, hfollows.settled.2, hfollows, hresolve⟩

/-- **GSI resolution is exact and unambiguous.**  For every list of I/O APICs and of overrides
and all contents of the registers.  If `ioapic_init` returns 0, from whatever state, then
`gsi_init` succeeds, and every GSI is resolved to the one entry it is.  If it fails from the
boot state, then nothing is resolved. -/
theorem gsi_resolution_exact (registers : IoApicRegisters) (hhdm : Word) (entries : List MadtIoApic)
    (isos : List MadtIso) (initialized : Bool) :
    (∀ s₀ s, ioapicInit registers hhdm entries s₀ = (0, s) →
        (gsiInit entries initialized).1 = 0 ∧
          s.Resolves (gsiInit entries initialized).2 registers entries isos) ∧
      ((ioapicInit registers hhdm entries {}).1 ≠ 0 →
        (ioapicInit registers hhdm entries {}).2.count = 0 ∧
          ∀ initialized gsi, ∃ code, code ≠ 0 ∧
            gsiResolveGsi initialized (ioapicInit registers hhdm entries {}).2 gsi =
              .error code) := by
  constructor
  · intro s₀ s hinit
    obtain ⟨hpos, hdiscovered⟩ := ioapicInit_eq_zero hinit
    have hready : gsiInit entries initialized = (0, true) := if_neg (by omega)
    rw [hready]
    exact ⟨rfl, hdiscovered.resolves isos⟩
  · intro hfail
    have hcount := count_of_ioapicInit rfl hfail
    refine ⟨hcount, fun initialized gsi => ?_⟩
    cases initialized with
    | false => exact ⟨-1, by decide, rfl⟩
    | true =>
        refine ⟨-3, by decide, ?_⟩
        rw [gsiResolveGsi, if_neg (by decide), if_pos hcount]

/-- Two I/O APICs, the one with the higher GSIs first; the other has 24 entries. -/
def demoIoApics : List MadtIoApic := [⟨1, 0xFEC01000, 0xFFFFFFF0⟩, ⟨0, 0xFEC00000, 0⟩]

def demoIoApicRegisters : IoApicRegisters := fun address register =>
  if register = ioapicRegVersion then if address = 0xFEC01000 then 0x00770020 else 0x00170020 else 0

/-- The timer is IRQ 0 and GSI 2. -/
theorem gsi_resolution_exact_demo :
    ∃ s, ioapicInit demoIoApicRegisters 0xFFFF800000000000 demoIoApics {} = (0, s) ∧
      s.Resolves true demoIoApicRegisters demoIoApics [⟨0, 0, 2, 0⟩] := by
  have hcode : (ioapicInit demoIoApicRegisters 0xFFFF800000000000 demoIoApics {}).1 =
      0 := by decide +kernel
  refine ⟨_, Prod.ext hcode rfl, ?_⟩
  exact ((gsi_resolution_exact demoIoApicRegisters 0xFFFF800000000000 demoIoApics
    [⟨0, 0, 2, 0⟩] false).1 {} _ (Prod.ext hcode rfl)).2

end Batos
