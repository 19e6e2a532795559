import Batos.Vmm.Destruction
import Batos.Vmm.Leaf
import Batos.Vmm.Prepare

/-!
# Creating, destroying and activating address spaces

The remaining operations of `vmm.c`, each reduced to what it does to the page
tables.  Most of them only ever add to the registry; `Paging.Evolves` collects what
a client of such an operation may rely on.  Destruction is the exception, and its
specification says exactly which tables go.

Validation before destruction stamps epochs into the registry and changes nothing
else (`Paging.Stamps`), so it needs no invariant.
-/

namespace Batos

open Option
open SlotRegistry (amend claim liveKeys)
open AddressSpaceRecord (inUse pml4Physical)
open PageTableRecord (physicalAddress unstamped)

variable {p parent flags owner c root : Word} {t : Table} {index : Fin 512} {s s' : Paging}
  {level : ℕ} {v : Vmm}

/-- The step of an operation that destroys nothing. -/
structure Paging.Evolves (s s' : Paging) : Prop where
  inv : s'.Inv ∅
  frame : s.Frame s'
  keeps : s.KeepsRecords s'

namespace Paging.Evolves

variable {s s' s'' : Paging}

theorem trans (h₁ : s.Evolves s') (h₂ : s'.Evolves s'') : s.Evolves s'' where
  inv := h₂.inv
  frame := h₁.frame.trans h₂.frame
  keeps := by
    intro q t ht
    obtain ⟨t', ht', hl', ho'⟩ := h₁.keeps ht
    obtain ⟨t'', ht'', hl'', ho''⟩ := h₂.keeps ht'
    exact ⟨t'', ht'', hl''.trans hl', ho''.trans ho'⟩

theorem of_same (h : s'.Inv ∅) (hsame : s.Same s') : s.Evolves s' where
  inv := h
  frame := hsame.frame
  keeps := (Paging.Extends.of_same hsame).keepsRecords

/-- New tables destroy no older one. -/
theorem of_extends (h : s'.Inv ∅) (hext : s.Extends s') : s.Evolves s' where
  inv := h
  frame := hext.frame h.aligned
  keeps := hext.keepsRecords

/-- A store into a registered table. -/
theorem of_write (htab : s.tables p = some t) {entry : Word} (h : (s.write p index entry).Inv ∅) :
    s.Evolves (s.write p index entry) where
  inv := h
  frame := frame_write htab index entry
  keeps := fun ht => tables_of_records _ ht rfl

end Paging.Evolves

/-! ## Mapping -/

/-- Creating a child table. -/
theorem Paging.Creates.evolves (h : s.Inv ∅) (htab : s.tables parent = some t)
    (hcreates : s.Creates parent index flags level owner c s') (hinv : s'.Inv ∅) :
    s.Evolves s' := by
  have hcnone : s.tables c = none := h.tables_of_free hcreates.free
  have hpc : parent ≠ c := ne_of_eq_none htab hcnone
  have hother : ∀ q, q ≠ parent → q ≠ c → s'.tables q = s.tables q := by
    intro q hqp hqc
    rw [hcreates.tables, Tables.writeEntry_of_ne hqp, Tables.insertTable_of_ne hqc]
  refine ⟨hinv, ⟨?_, fun {q} hq => ?_⟩, fun {q u} hq => ?_⟩
  · rw [hcreates.pmm]
    exact s.pmm.sameGeometry_reserve _
  · have hqp : q ≠ parent := (ne_of_eq_none htab hq.2.1).symm
    have hqc : q ≠ c := by
      rintro rfl
      exact hq.2.2 hcreates.free
    have hframe : frameOf q ≠ frameOf c := fun hf =>
      hqc (frameOf_inj hq.1 hcreates.aligned.toNat_mod hf)
    refine ⟨⟨hq.1, (hother q hqp hqc).trans hq.2.1, fun hfree => hq.2.2 ?_⟩,
      hcreates.memory q hqc hqp, ?_⟩
    · rw [hcreates.pmm] at hfree
      obtain ⟨hpos, hrange, hclear⟩ := hfree
      rw [Pmm.used_reserve, Bool.or_eq_false_iff] at hclear
      exact ⟨hpos, hrange, hclear.2⟩
    · rw [hcreates.pmm, Pmm.used_reserve]
      simp [hframe]
  · by_cases hqp : q = parent
    · subst hqp
      obtain rfl := some.inj (htab.symm.trans hq)
      refine ⟨{ t with entries := Function.update t.entries index (tableEntry c flags) }, ?_,
        rfl, rfl⟩
      rw [hcreates.tables]
      refine Tables.writeEntry_self ?_ _ _
      rw [Tables.insertTable_of_ne hpc]
      exact htab
    · have hqc : q ≠ c := ne_of_eq_none hq hcnone
      exact ⟨u, (hother q hqp hqc).trans hq, rfl, rfl⟩

theorem Paging.ChildStep.evolves {b : Bool} (h : s.Inv ∅)
    (hstep : s.ChildStep parent index flags level owner b c s') (hinv : s'.Inv ∅) :
    s.Evolves s' := by
  cases hstep with
  | existing edge => exact .of_same h (.refl s)
  | created table parentLevel empty creates => exact creates.evolves h table hinv

/-- A page is mapped. -/
theorem Paging.Maps.evolves {pml4 va pa : Word} (h : s.Inv ∅) (hmaps : s.Maps pml4 va pa flags s')
    (hinv : s'.Inv ∅) : s.Evolves s' := by
  obtain ⟨pdpt, pd, pt, b₂, b₁, b₀, s₁, s₂, s₃, t, hstep₂, hstep₁, hstep₀, hinv₁, hinv₂, hinv₃,
    ht, -, -, -, rfl⟩ := hmaps.descent
  exact (hstep₂.evolves h hinv₁).trans ((hstep₁.evolves hinv₁ hinv₂).trans
    ((hstep₀.evolves hinv₂ hinv₃).trans (.of_write ht hinv)))

theorem vmmMapPage_evolves (h : s.Inv ∅) (pml4 va pa flags : Word) :
    s.Evolves (vmmMapPage s pml4 va pa flags).2 := by
  rcases vmmMapPage_cases h pml4 va pa flags with ⟨s', heq, hinv, hsame⟩ | ⟨s', heq, hinv, hmaps⟩
  · rw [heq]
    exact .of_same hinv hsame
  · rw [heq]
    exact hmaps.evolves h hinv

/-- Clearing a leaf entry keeps the invariant. -/
theorem Paging.Inv.clear_leaf (h : s.Inv ∅) {pt : Word} (ht : s.tables pt = some t)
    (hl : t.level = vmmLevelPt) (index : Fin 512) :
    (s.write pt index 0).Inv ∅ := by
  refine inv_write_leaf h ht (fun _ => rfl) ?_ (entryChild_zero _)
  rw [hl]
  rfl

/-- A page is unmapped, and its table stays. -/
theorem vmmUnmapPage_evolves (h : s.Inv ∅) (pml4 va : Word) :
    s.Evolves (vmmUnmapPage s pml4 va).2 := by
  rcases vmmUnmapPage_cases h.wf pml4 va with
    ⟨heq, -⟩ | ⟨_, pt, t, -, -, -, -, ht, hl, -, -, heq, -⟩
  · rw [heq]
    exact .of_same h (.refl s)
  · rw [heq]
    exact .of_write ht (h.clear_leaf ht hl _)

section Sections

variable {P : Paging → Prop} {pml4 : Word}
  (hstep : ∀ (s : Paging) (va pa flags : Word), P s → P (vmmMapPage s pml4 va pa flags).2)

include hstep

theorem mapKernelPages_induction (virtualBase physicalBase flags : Word) (pages : ℕ) (va : Word)
    (h : P s) : P (mapKernelPages pml4 virtualBase physicalBase flags pages va s).2 := by
  induction pages generalizing va s with
  | zero => exact h
  | succ pages ih =>
      rw [mapKernelPages]
      dsimp only
      have hmap := hstep s va (physicalBase + (va - virtualBase)) flags h
      split
      · exact h
      · split
        · exact hmap
        · exact ih _ hmap

theorem mapKernelSection_induction
    (virtualBase physicalBase imageEnd sectionStart sectionEnd flags : Word) (h : P s) :
    P (mapKernelSection s pml4 virtualBase physicalBase imageEnd sectionStart
      sectionEnd flags).2 := by
  unfold mapKernelSection
  dsimp only
  split
  · exact h
  · split
    · exact h
    · split
      · exact h
      · exact mapKernelPages_induction hstep virtualBase physicalBase flags _ _ h

/-- **What every `vmm_map_page` keeps, the mapping of the kernel's sections keeps.** -/
theorem mapKernelSections_induction (virtualBase physicalBase imageEnd : Word)
    (sections : List (Word × Word × Word)) (h : P s) :
    P (mapKernelSections pml4 virtualBase physicalBase imageEnd sections s).2 := by
  induction sections generalizing s with
  | nil => exact h
  | cons region sections ih =>
      obtain ⟨sectionStart, sectionEnd, flags⟩ := region
      rw [mapKernelSections]
      have hsection := mapKernelSection_induction hstep virtualBase physicalBase
        imageEnd sectionStart sectionEnd flags h
      dsimp only
      split
      · exact hsection
      · exact ih hsection

end Sections

theorem mapKernelSections_evolves (pml4 virtualBase physicalBase imageEnd : Word)
    (sections : List (Word × Word × Word)) (h : s.Inv ∅) :
    s.Evolves (mapKernelSections pml4 virtualBase physicalBase imageEnd sections s).2 :=
  mapKernelSections_induction
    (fun _ va pa flags hevolves =>
    hevolves.trans (vmmMapPage_evolves hevolves.inv pml4 va pa flags))
    virtualBase physicalBase imageEnd sections (.of_same h (.refl s))

/-! ## Creation -/

/-- The record of a new root: it had none, and there is a slot for it. -/
structure Vmm.Enrols (v : Vmm) (root : Word) (spaces : List AddressSpaceRecord) : Prop where
  nonzero : root ≠ 0
  fresh : findAddressSpaceRecord v root = none
  claim : claim inUse vmmMaxAddressSpaces {}
    (fun _ => { pml4Physical := root, state := .created, inUse := true })
    v.addressSpaceRecords = some spaces

/-- With a table for the root: the registry of address spaces refuses it and the table goes
back, or the root gets its record. -/
theorem vmmCreateAddressSpace_of_some
    (halloc : allocatePageTable v.paging vmmLevelPml4 0 = (some root, s)) :
    vmmCreateAddressSpace v = (none, { v with paging := releasePageTable s root }) ∨
      ∃ spaces, v.Enrols root spaces ∧ vmmCreateAddressSpace v =
        (some root, { v with paging := s, addressSpaceRecords := spaces }) := by
  unfold vmmCreateAddressSpace registerAddressSpace
  rw [halloc]
  dsimp only
  split_ifs with hzero hfind
  · exact .inl rfl
  · exact .inl rfl
  cases hclaim : claim inUse vmmMaxAddressSpaces {}
      (fun _ => { pml4Physical := root, state := .created, inUse := true })
      v.addressSpaceRecords with
  | none => exact .inl rfl
  | some spaces => exact .inr ⟨spaces, ⟨hzero, not_isSome_iff_eq_none.mp hfind, hclaim⟩, rfl⟩

/-- **The outcomes of `vmm_create_address_space`.** -/
theorem vmmCreateAddressSpace_cases (h : v.paging.Inv ∅) :
    (∃ s', vmmCreateAddressSpace v = (none, { v with paging := s' }) ∧ s'.Inv ∅ ∧
        v.paging.Same s') ∨
      ∃ root s' spaces, vmmCreateAddressSpace v =
          (some root, { v with paging := s', addressSpaceRecords := spaces }) ∧ s'.Inv ∅ ∧
        v.paging.Allocates root vmmLevelPml4 root s' ∧ v.Enrols root spaces := by
  rcases allocatePageTable_cases h vmmLevelPml4 0 le_rfl (fun _ => rfl) with
    ⟨s', heq, hinv, hsame⟩ | ⟨root, s₁, heq, halloc, hinv₁⟩
  · rw [vmmCreateAddressSpace, heq]
    exact .inl ⟨s', rfl, hinv, hsame⟩
  rw [if_pos rfl] at halloc
  have htab := halloc.tables_self
  rcases vmmCreateAddressSpace_of_some heq with heq | ⟨spaces, henrols, heq⟩
  · rw [heq]
    have hinv₂ : (releasePageTable s₁ root).Inv ∅ :=
      inv_releasePageTable hinv₁ (Set.notMem_empty _) htab fun _ => entryChild_zero _
    have hprunes : Paging.Prunes root s₁ (releasePageTable s₁ root) := .release hinv₁ htab
    refine .inl ⟨_, rfl, hinv₂, ?_⟩
    refine ((Paging.Extends.of_allocates h halloc).prune h hinv₁ (Set.empty_subset _)
      (h.tables_of_free halloc.free) hprunes).same fun q hq hnone => ?_
    rw [(releasePageTable_effect hinv₁.booked htab).1] at hq
    by_cases hqr : q = root
    · rw [hqr, Tables.removeTable_self] at hq
      exact hq rfl
    · rw [Tables.removeTable_of_ne hqr, halloc.tables_of_ne hqr] at hq
      exact hq hnone
  · exact .inr ⟨root, s₁, spaces, heq, hinv₁.of_insert_top htab rfl, halloc, henrols⟩

/-! ## Validation -/

/-- Only epochs have changed. -/
structure Paging.Stamps (s s' : Paging) : Prop where
  pmm : s'.pmm = s.pmm
  memory : s'.memory = s.memory
  tables : s'.tables = s.tables
  liveFrames : s'.liveFrames = s.liveFrames

namespace Paging.Stamps

variable {s s' : Paging}

/-- Stamps say nothing about the tables. -/
theorem same (h : s.Stamps s') : s.Same s' := by
  refine ⟨h.tables, fun f => by rw [h.pmm], ?_, fun q _ => by rw [h.memory]⟩
  rw [h.pmm]

theorem inv (h : s.Stamps s') {loose : Set Word} (hinv : s.Inv loose) : s'.Inv loose :=
  hinv.of_same h.same h.liveFrames

theorem prunes (h : s.Stamps s') (hprunes : Paging.Prunes p s' s'') :
    Paging.Prunes p s s'' where
  geometry := by
    rw [← h.pmm]
    exact hprunes.geometry
  outside := by
    rw [← h.tables]
    exact hprunes.outside
  sub := by
    rw [← h.tables]
    exact hprunes.sub
  used := by
    rw [← h.tables, ← h.pmm]
    exact hprunes.used
  memory := by
    rw [← h.tables, ← h.memory]
    exact hprunes.memory

end Paging.Stamps

/-- What the check and the start of an epoch leave, as a client sees it. -/
theorem Paging.Restamped.stamps (h : s.Restamped s') : s.Stamps s' where
  pmm := h.pmm
  memory := h.memory
  tables := by
    funext q
    have hfind := h.find q
    unfold Paging.tables
    rw [h.memory]
    cases hr : findPageTableRecord s q with
    | none =>
        rw [hr, map_none, map_eq_none_iff] at hfind
        rw [hfind]
    | some r =>
        rw [hr, map_some, map_eq_some_iff] at hfind
        obtain ⟨r', hr', heq⟩ := hfind
        obtain ⟨hl, ho⟩ : r'.level = r.level ∧ r'.ownerPml4 = r.ownerPml4 := by
          rw [unstamped, unstamped, PageTableRecord.mk.injEq] at heq
          exact ⟨heq.2.2.2.1, heq.2.1⟩
        rw [hr', map_some, map_some, hl, ho]
  liveFrames := by
    have hkeys : ∀ records : List PageTableRecord,
        liveKeys PageTableRecord.inUse physicalAddress records =
        liveKeys PageTableRecord.inUse physicalAddress
          (records.map unstamped) :=
      fun records => (SlotRegistry.liveKeys_map (f := unstamped) (fun _ => rfl)
        (fun _ => rfl) records).symm
    rw [Paging.liveFrames, Paging.liveFrames, hkeys, h.records, ← hkeys]

/-! ## Destruction -/

/-- The records after the destruction of a root. -/
def Vmm.retireSpace (v : Vmm) (root : Word) : List AddressSpaceRecord :=
  amend inUse pml4Physical root
    (fun record => { record with state := .inactive, inUse := false }) v.addressSpaceRecords

/-- **The outcomes of `vmm_destroy_address_space`**: only epochs change, or the tree
of a live root that is not active goes, with its record. -/
theorem vmmDestroyAddressSpace_outcome (h : v.paging.Inv ∅) (root : Word) :
    (∃ s' epoch, vmmDestroyAddressSpace v root =
        (-1, { v with paging := s', validationEpoch := epoch }) ∧ v.paging.Stamps s') ∨
      ∃ s' epoch t, vmmDestroyAddressSpace v root =
          (0, { v with
            paging := s', validationEpoch := epoch, addressSpaceRecords := v.retireSpace root,
            lastClonedPml4 := if v.lastClonedPml4 = root then 0 else v.lastClonedPml4 }) ∧
        root ≠ v.activeAddressSpacePml4 ∧ v.paging.tables root = some t ∧
        t.level = vmmLevelPml4 ∧ s'.Inv ∅ ∧ s'.tables root = none ∧
        Paging.Prunes root v.paging s' := by
  rcases destroy_outcome v root with ⟨paging, epoch, heq, hstamps⟩ |
    ⟨record, paging, paging', epoch, -, hactive, -, -, htree, hstamps, -, rfl, heq⟩
  · exact .inl ⟨paging, epoch, heq, hstamps.stamps⟩
  · obtain ⟨r, hr, -, hl, -⟩ := htree.registered vmmLevelPml4 root (Unfolding.self_mem _ _ _)
    have ht : v.paging.tables root = some ⟨r.level, r.ownerPml4, v.paging.memory root⟩ :=
      tables_eq_some.mpr ⟨r, hr, rfl, rfl, rfl⟩
    have hstamps := hstamps.stamps
    have ht₁ := (congrFun hstamps.tables root).trans ht
    obtain ⟨hinv, hgone, hprunes⟩ := releaseTree_spec false vmmLevelPml4 paging root _ ∅
      ((hstamps.inv h).insert_top ht₁ hl) (Set.notMem_empty _) ht₁ hl
    exact .inr ⟨_, epoch, _, heq, hactive, ht, hl, hinv, hgone, hstamps.prunes hprunes⟩

/-- What the destruction of a root means for the page tables. -/
theorem vmmDestroyAddressSpace_cases (h : v.paging.Inv ∅) (root : Word) :
    (∃ s' epoch, vmmDestroyAddressSpace v root =
        (-1, { v with paging := s', validationEpoch := epoch }) ∧ v.paging.Stamps s') ∨
      ∃ s' epoch spaces cloned t, vmmDestroyAddressSpace v root =
          (0, { v with
            paging := s', validationEpoch := epoch, addressSpaceRecords := spaces,
            lastClonedPml4 := cloned }) ∧
        root ≠ v.activeAddressSpacePml4 ∧ v.paging.tables root = some t ∧
        t.level = vmmLevelPml4 ∧ s'.Inv ∅ ∧ s'.tables root = none ∧
        Paging.Prunes root v.paging s' := by
  rcases vmmDestroyAddressSpace_outcome h root with hstay | ⟨s', epoch, t, heq, hgoes⟩
  · exact .inl hstay
  · exact .inr ⟨s', epoch, _, _, t, heq, hgoes⟩

/-- Tables of other owners survive. -/
theorem Paging.Prunes.keeps_of_owner {q : Word} {r : Table} (h : s.Inv ∅)
    (hprunes : Paging.Prunes root s s') (hr : s.tables root = some r) (hq : s.tables q = some t)
    (hne : t.owner ≠ r.owner) : s'.tables q = some t := by
  rw [hprunes.outside q fun hdesc => hne ?_, hq]
  obtain ⟨l, -, hinfo⟩ := h.wf.info_of_desc (Tables.forest_info hr) hdesc
  rw [Tables.forest_info hq] at hinfo
  exact (Prod.mk.inj (some.inj hinfo)).2

/-! ## Kernel address spaces -/

/-- What an operation that destroys no older table does to the whole state. -/
structure Vmm.Evolves (v v' : Vmm) : Prop where
  paging : v.paging.Evolves v'.paging
  kernelPml4 : v'.kernelPml4 = v.kernelPml4
  active : v'.activeAddressSpacePml4 = v.activeAddressSpacePml4
  cr3 : v'.cr3 = v.cr3

/-- A space is created, or nothing is. -/
theorem vmmCreateAddressSpace_evolves (h : v.paging.Inv ∅) :
    v.Evolves (vmmCreateAddressSpace v).2 := by
  rcases vmmCreateAddressSpace_cases h with ⟨s', heq, hinv, hsame⟩ |
    ⟨root, s', spaces, heq, hinv, halloc, -⟩
  · rw [heq]
    exact ⟨.of_same hinv hsame, rfl, rfl, rfl⟩
  · rw [heq]
    exact ⟨.of_extends hinv (.of_allocates h halloc), rfl, rfl, rfl⟩

/-- The sections of an image, mapped under a root. -/
abbrev KernelImage.map (image : KernelImage) (root : Word) (s : Paging) : ℤ × Paging :=
  mapKernelSections root image.virtualBase image.physicalBase
    ((image.virtualBase + image.imageSize + 0xFFF) &&& ~~~0xFFF) image.sections s

/-- **The rule of `vmm_create_kernel_address_space`**: nothing has happened, a new root has been
refused, or the image has been mapped under a new root, which is kept or destroyed. -/
theorem vmmCreateKernelAddressSpace_rule {image : KernelImage} {P : Vmm → Prop} (hstay : P v)
    (hcreate : P (vmmCreateAddressSpace v).2)
    (hmap : ∀ root v₁, vmmCreateAddressSpace v = (some root,
      v₁) → P { v₁ with paging := (image.map root v₁.paging).2 } ∧
      P (vmmDestroyAddressSpace { v₁ with paging := (image.map root v₁.paging).2 } root).2) :
    P (vmmCreateKernelAddressSpace image v).2 := by
  unfold vmmCreateKernelAddressSpace
  dsimp only
  split_ifs
  iterate 5 exact hstay
  rcases hcall : vmmCreateAddressSpace v with ⟨_ | root, v₁⟩
  · rw [hcall] at hcreate
    exact hcreate
  · obtain ⟨hkept, hdestroyed⟩ := hmap root v₁ hcall
    dsimp only
    split_ifs
    · exact hdestroyed
    · exact hkept

/-- Building a kernel address space: on failure the tree that goes is new. -/
theorem vmmCreateKernelAddressSpace_evolves (image : KernelImage) (h : v.paging.Inv ∅) :
    v.Evolves (vmmCreateKernelAddressSpace image v).2 := by
  refine vmmCreateKernelAddressSpace_rule ⟨.of_same h (.refl _), rfl, rfl, rfl⟩
    (vmmCreateAddressSpace_evolves h) fun root v₁ hcreate => ?_
  rcases vmmCreateAddressSpace_cases h with ⟨s₁, heq, -⟩ | ⟨r, s₁, spaces, heq, hinv₁, halloc, -⟩
  · rw [heq] at hcreate
    cases hcreate
  obtain ⟨hr, rfl⟩ := Prod.mk.inj (heq.symm.trans hcreate)
  obtain rfl := some.inj hr
  have hsections : s₁.Evolves (image.map r s₁).2 := mapKernelSections_evolves r _ _ _ _ hinv₁
  have hevolves := (Paging.Evolves.of_extends hinv₁ (.of_allocates h halloc)).trans hsections
  refine ⟨⟨hevolves, rfl, rfl, rfl⟩, ?_⟩
  rcases vmmDestroyAddressSpace_cases
    (v := { v with paging := (image.map r s₁).2, addressSpaceRecords := spaces })
    hsections.inv r with
    ⟨s₃, epoch, heq, hstamps⟩ | ⟨s₃, epoch, spaces', cloned, t, heq, -, ht, -, hinv₃, -, hprunes⟩
  · rw [heq]
    exact ⟨hevolves.trans (.of_same (hstamps.inv hsections.inv) hstamps.same), rfl, rfl, rfl⟩
  · rw [heq]
    refine ⟨⟨hinv₃, hevolves.frame.trans (hprunes.frame hsections.inv), ?_⟩, rfl, rfl, rfl⟩
    intro q u hq
    obtain ⟨u', hu', hl', ho'⟩ := hevolves.keeps hq
    obtain ⟨r', hr', -, hro⟩ := hsections.keeps halloc.tables_self
    refine ⟨u', hprunes.keeps_of_owner hsections.inv hr' hu' ?_, hl', ho'⟩
    -- the owner of an older table is a registered root, the new root was not
    rw [ho', hro]
    intro howner
    have howned := (h.wf.desc_owner (Tables.forest_info hq)).1
    dsimp only at howner
    rw [howner, Tables.forest_info_eq_none.mpr (h.tables_of_free halloc.free)] at howned
    cases howned

/-! ## Activation -/

/-- The records after another address space has become active. -/
def Vmm.switchSpace (v : Vmm) (root : Word) : List AddressSpaceRecord :=
  let v :=
    if v.activeAddressSpacePml4 ≠ 0 ∧ v.activeAddressSpacePml4 ≠ root then
      v.amendSpace v.activeAddressSpacePml4 fun record => { record with state := .inactive }
    else v
  (v.amendSpace root fun record => { record with state := .active }).addressSpaceRecords

/-- The outcomes of `vmm_activate_address_space` in a booked state: nothing, nothing
because the address space is already active, or a switch. -/
theorem vmmActivateAddressSpace_outcome (h : v.paging.Booked) (root : Word) :
    vmmActivateAddressSpace v root = (-1, v) ∨
      ∃ target t, root ≠ 0 ∧ findAddressSpaceRecord v root = some target ∧
        v.paging.tables root = some t ∧ t.level = vmmLevelPml4 ∧
        ((vmmActivateAddressSpace v root = (0, v) ∧ v.activeAddressSpacePml4 = root ∧
            target.state = .active) ∨
          vmmActivateAddressSpace v root =
            (0, { v with
              cr3 := root
              addressSpaceRecords := v.switchSpace root
              activeAddressSpacePml4 := root })) := by
  unfold vmmActivateAddressSpace
  by_cases hzero : root = 0
  · rw [if_pos hzero]
    exact .inl rfl
  rw [if_neg hzero]
  cases hfind : findAddressSpaceRecord v root with
  | none => exact .inl rfl
  | some target =>
      dsimp only
      by_cases hroot : vmmVerifyPageTableRoot v.paging root = true
      swap
      · rw [if_pos (by simpa using hroot)]
        exact .inl rfl
      rw [if_neg (by rw [hroot]; decide)]
      obtain ⟨t, ht, hl, -⟩ := vmmVerifyPageTableRoot_iff.mp hroot
      refine .inr ⟨target, t, hzero, rfl, ht, hl, ?_⟩
      by_cases hidem : v.activeAddressSpacePml4 = root ∧ target.state = .active
      · rw [if_pos hidem]
        exact .inl ⟨rfl, hidem⟩
      have haligned : root &&& addressMask = root := (h.frames ht).frameAligned h.sound
      rw [if_neg hidem, if_neg (not_not.mpr haligned)]
      refine .inr ?_
      unfold Vmm.switchSpace
      by_cases hprevious : v.activeAddressSpacePml4 ≠ 0 ∧ v.activeAddressSpacePml4 ≠ root
      · simp only [if_pos hprevious]
        rfl
      · simp only [if_neg hprevious]
        rfl

/-- **The outcomes of `vmm_activate_address_space`**: CR3 is only ever loaded with a
live root, and always together with the lifecycle state. -/
theorem vmmActivateAddressSpace_cases (h : v.paging.Inv ∅) (root : Word) :
    (∃ code, vmmActivateAddressSpace v root = (code, v)) ∨
      ∃ spaces t, vmmActivateAddressSpace v root =
          (0, { v with
            cr3 := root, addressSpaceRecords := spaces, activeAddressSpacePml4 := root }) ∧
        v.paging.tables root = some t ∧ t.level = vmmLevelPml4 := by
  rcases vmmActivateAddressSpace_outcome h.booked root with
    heq | ⟨target, t, -, -, ht, hl, ⟨heq, -, -⟩ | heq⟩
  · exact .inl ⟨-1, heq⟩
  · exact .inl ⟨0, heq⟩
  · exact .inr ⟨_, t, heq, ht, hl⟩

end Batos
