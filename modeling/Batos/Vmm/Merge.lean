import Batos.Vmm.Contents

/-!
# Merging the boot loader's hierarchy

A successful `vmm_prepare_address_space` gives the kernel root a copy of every PML4
slot it lacks.  A slot the kernel root has is kept as it is, with whatever it maps,
and the source's slot is not looked at.  So afterwards an address is translated as
before where the kernel root had a slot for it, and as in the source elsewhere
(`Preparation.lookup`).

Whether every mapping of the source has survived is then a matter of the slots the
two hierarchies share: exactly the addresses the source maps through such a slot,
and the kernel root does not, are lost (`prepare_keeps_iff`).
-/

namespace Batos

open Function Option

variable {level : ℕ} {kt : Table} {kernel source : Word} {s : Paging} {m : Mm}

/-- Every hierarchy is a copy of itself. -/
theorem SameTree.refl (m : Word → Fin 512 → Word) (level : ℕ) (p : Word) :
    SameTree m m level p p := by
  induction level generalizing p with
  | zero => exact fun _ => rfl
  | succ level ih =>
      refine fun index => ⟨rfl, fun c hc => ?_⟩
      obtain ⟨-, -, -, rfl⟩ := entryChild_eq_some.mp hc
      exact ih _

/-- A walk depends on the tables it can reach. -/
theorem TreeIn.mmuWalk_eq {m m' : Word → Fin 512 → Word} {p : Word} {S : Word → Prop}
    (h : TreeIn m level p S) (hsame : ∀ q, S q → m' q = m q) (va : Word) :
    mmuWalk m' level p va = mmuWalk m level p va :=
  ((SameTree.refl m level p).congr h h (fun _ _ => rfl) hsame).mmuWalk_eq va

/-! ## Building and publishing -/

section Building

variable {s₁ s s' : Paging} {kernel source cloned : Word} {roots roots' : Fin 512 → Word}

/-- The copies made so far hold what the source's slots hold. -/
def CopiedRoots (s₁ : Paging) (source : Word) (roots : Fin 512 → Word) (s : Paging) : Prop :=
  ∀ i, roots i ≠ 0 →
    SameTree s₁.memory s.memory vmmLevelPdpt (entryAddress (s₁.memory source i)) (roots i)

/-- **The building loop copies every slot the kernel root lacks.** -/
theorem buildRoots_contents (hkernel : s₁.tables kernel = some kt) (hstable : s₁.Stable source)
    (hsettled : s₁.Settled vmmLevelPml4 source) {indices : List (Fin 512)} (hnodup : indices.Nodup)
    (h : Building s₁ kernel source roots s) (hzero : ∀ i ∈ indices, roots i = 0)
    (hcopied : CopiedRoots s₁ source roots s)
    (hrun : buildRoots kernel source cloned indices roots s = (some roots', s')) :
    CopiedRoots s₁ source roots' s' ∧ (∀ i, roots i ≠ 0 → roots' i = roots i) ∧
      ∀ i ∈ indices, isPresent (s₁.memory kernel i) = false →
        isPresent (s₁.memory source i) = true → roots' i ≠ 0 := by
  induction indices generalizing roots s with
  | nil =>
      obtain ⟨rfl, rfl⟩ : roots = roots' ∧ s = s' := by
        have hpair : (some roots, s) = (some roots', s') := hrun
        simpa using hpair
      exact ⟨hcopied, fun _ _ => rfl, fun _ hi => absurd hi List.not_mem_nil⟩
  | cons index indices ih =>
      obtain ⟨hindex, hnodup⟩ := List.nodup_cons.mp hnodup
      rcases h.round cloned hkernel hstable hindex hzero hrun with
        ⟨hskip, hrun⟩ | ⟨s₂, -, hfail⟩ | ⟨c, s₂, hcopy, hc, hext, hbuild, hrest, hrun⟩
      · -- a slot that is not copied is present in the kernel root or absent in the source
        obtain ⟨hcopied', hkeep, hdone⟩ := ih hnodup h
          (fun i hi => hzero i (List.mem_cons_of_mem _ hi)) hcopied hrun
        refine ⟨hcopied', hkeep, fun i hi hk hs => ?_⟩
        rcases List.mem_cons.mp hi with rfl | hi
        · rcases hskip with hpresent | habsent
          · exact absurd (hk.symm.trans hpresent) Bool.false_ne_true
          · exact absurd (habsent.symm.trans hs) Bool.false_ne_true
        · exact hdone i hi hk hs
      · cases hfail
      have hne : ∀ i, roots i ≠ 0 → i ≠ index := by
        rintro i hi rfl
        exact hi (hzero i (List.mem_cons_self ..))
      have hcopied₂ : CopiedRoots s₁ source (update roots index c) s₂ := by
        intro i hi
        by_cases heqi : i = index
        · subst heqi
          obtain ⟨-, hpresent, hhuge⟩ := hbuild.entry i hi
          have hsettledChild : s₁.Settled vmmLevelPdpt (entryAddress (s₁.memory source i)) :=
            hsettled.child (entryChild_eq_some.mpr ⟨by decide, hpresent, hhuge, rfl⟩)
          rw [update_self]
          obtain ⟨hsame, -⟩ :=
            copyPageTableSubtree_contents vmmLevelPdpt le_rfl kernel s _ _ c s₂ h.inv
              (hsettledChild.of_extends h.extends_) hcopy
          exact hsame.congr (TreeIn.congr hsettledChild fun q hq =>
            h.extends_.memory_of_not_free hq) (treeIn_true _ _ _)
              (fun q hq => (h.extends_.memory_of_not_free hq).symm) fun _ _ => rfl
        · rw [update_of_ne heqi] at hi ⊢
          obtain ⟨-, v, hv, hvl, -⟩ := h.root i hi
          exact (hcopied i hi).congr (treeIn_true _ _ _) (h.inv.settled hv hvl) (fun _ _ => rfl)
            fun q hq => hext.memory_of_not_free hq
      obtain ⟨hcopied', hkeep, hdone⟩ := ih hnodup hbuild hrest hcopied₂ hrun
      refine ⟨hcopied', fun i hi => ?_, fun i hi hk hs => ?_⟩
      · rw [hkeep i (by rw [update_of_ne (hne i hi)]; exact hi), update_of_ne (hne i hi)]
      · rcases List.mem_cons.mp hi with rfl | hi
        · rw [hkeep i (by rw [update_self]; exact hc), update_self]
          exact hc
        · exact hdone i hi hk hs

end Building

/-- The rows of memory after the publication. -/
theorem publishRoots_memory (hne : source ≠ kernel) (roots : Fin 512 → Word) (s : Paging) :
    (∀ q, q ≠ kernel → (publishRoots kernel source roots s).memory q = s.memory q) ∧
      ∀ i, (publishRoots kernel source roots s).memory kernel i =
        if roots i = 0 then s.memory kernel i
        else copiedEntry (roots i) (s.memory source i) := by
  have hfold : ∀ (indices : List (Fin 512)) (s : Paging), indices.Nodup →
      (∀ q, q ≠ kernel → (indices.foldl (fun s index => if roots index = 0 then s
        else s.write kernel index (copiedEntry (roots index) (s.memory source index))) s).memory q =
          s.memory q) ∧
      ∀ i, (indices.foldl (fun s index => if roots index = 0 then s
        else s.write kernel index (copiedEntry (roots index) (s.memory source index))) s).memory
          kernel i =
        if i ∈ indices ∧ roots i ≠ 0 then copiedEntry (roots i) (s.memory source i)
        else s.memory kernel i := by
    intro indices
    induction indices with
    | nil => exact fun s _ => ⟨fun _ _ => rfl, fun i => by simp⟩
    | cons index indices ih =>
        intro s hnodup
        obtain ⟨hindex, hnodup⟩ := List.nodup_cons.mp hnodup
        rw [List.foldl_cons]
        by_cases hzero : roots index = 0
        · rw [if_pos hzero]
          obtain ⟨hother, hrow⟩ := ih s hnodup
          refine ⟨hother, fun i => ?_⟩
          rw [hrow i]
          by_cases hi : i = index
          · subst hi
            simp [hzero]
          · simp [hi]
        · rw [if_neg hzero]
          set s₁ := s.write kernel index (copiedEntry (roots index) (s.memory source index))
          obtain ⟨hother, hrow⟩ := ih s₁ hnodup
          have hsource : s₁.memory source = s.memory source := memory_write_of_ne hne _ _
          refine ⟨fun q hq => (hother q hq).trans (memory_write_of_ne hq _ _), fun i => ?_⟩
          rw [hrow i, hsource]
          by_cases hi : i = index
          · subst hi
            rw [if_neg fun hand => hindex hand.1, memory_write_self,
              if_pos ⟨List.mem_cons_self .., hzero⟩]
          · rw [memory_write_of_index_ne hi]
            simp [hi]
  unfold publishRoots
  obtain ⟨hother, hrow⟩ := hfold tableIndices s nodup_tableIndices
  refine ⟨hother, fun i => (hrow i).trans ?_⟩
  by_cases hzero : roots i = 0
  · rw [if_pos hzero, if_neg fun hand => hand.2 hzero]
  · rw [if_neg hzero, if_pos ⟨mem_tableIndices i, hzero⟩]

/-! ## The merged hierarchy -/

/-- The tables below a table of lower level than `kernel` are others than `kernel`. -/
theorem Paging.Inv.treeIn_below {loose : Set Word} (h : s.Inv loose) {c : Word} {u : Table}
    (hu : s.tables c = some u) (hul : u.level = level) (hkernel : s.tables kernel = some kt)
    (hlt : level < kt.level) :
    TreeIn s.memory level c fun q => q ≠ kernel ∧ ¬ s.pmm.Free (frameOf q) := by
  intro path q hq
  refine ⟨?_, h.settled hu hul path q hq⟩
  rintro rfl
  obtain ⟨l, hle, hinfo⟩ := h.wf.info_of_desc (Tables.forest_info hu)
    (h.treeIn_desc hu hul path q hq)
  rw [Tables.forest_info hkernel] at hinfo
  have hl : kt.level = l := (Prod.mk.inj (some.inj hinfo)).1
  omega

section Preparation

variable {v : Vmm} {kt : Table} {source cloned : Word} {s₁ s₂ : Paging} {roots : Fin 512 → Word}
  (hprep : Preparation v source s₁ cloned roots s₂) (h : v.paging.Inv ∅)
  (hkernel : v.paging.tables v.kernelPml4 = some kt) (hlevel : kt.level = vmmLevelPml4)
  (howner : kt.owner = v.kernelPml4)
  (hsource : TreeIn v.paging.memory vmmLevelPml4 source
    fun q => q ≠ v.kernelPml4 ∧ ¬ v.paging.pmm.Free (frameOf q))

include hprep hkernel hsource in
/-- What is in memory after a preparation: the kernel root has gained the copies, and
all else that was in use is as it was. -/
theorem Preparation.memory :
    (∀ q, q ≠ v.kernelPml4 ∧ ¬ v.paging.pmm.Free (frameOf q) →
      (publishRoots v.kernelPml4 source roots s₂).memory q = v.paging.memory q) ∧
    ∀ i, (publishRoots v.kernelPml4 source roots s₂).memory v.kernelPml4 i =
      if roots i = 0 then v.paging.memory v.kernelPml4 i
      else copiedEntry (roots i) (v.paging.memory source i) := by
  have hext : v.paging.Extends s₂ := hprep.extends_.trans hprep.building.extends_
  obtain ⟨hother, hrow⟩ := publishRoots_memory hprep.source_ne roots s₂
  refine ⟨fun q hq => (hother q hq.1).trans (hext.memory_of_not_free hq.2), fun i => ?_⟩
  rw [hrow i, hext.memory_of_not_free hsource.root.2, memory_of_tables hkernel,
    memory_of_tables (hext.kept hkernel)]

include hprep h hkernel hlevel howner hsource in
/-- **What the kernel root translates after a preparation**: what it did where it had
a PML4 slot, and what the source maps elsewhere. -/
theorem Preparation.lookup (va : Word) :
    (publishRoots v.kernelPml4 source roots s₂).tables.lookup v.kernelPml4 va =
      if isPresent (v.paging.memory v.kernelPml4 (pml4Index va)) = true then
        v.paging.tables.lookup v.kernelPml4 va
      else mmuWalk v.paging.memory vmmLevelPml4 source va := by
  obtain ⟨hinv', -, hkeeps⟩ := hprep.publish hkernel hlevel howner
  obtain ⟨hmem, hrow⟩ := hprep.memory hkernel hsource
  have hext : v.paging.Extends s₂ := hprep.extends_.trans hprep.building.extends_
  obtain ⟨kt', hkt', hkl', hko'⟩ := hkeeps (hext.kept hkernel)
  set s' := publishRoots v.kernelPml4 source roots s₂
  have hlookup' : s'.tables.lookup v.kernelPml4 va = mmuWalk s'.memory 3 v.kernelPml4 va :=
    walk_eq_mmuWalk hinv'.wf hkt' (hkl'.trans hlevel) (hko'.trans howner)
  have hlookup : v.paging.tables.lookup v.kernelPml4 va =
      mmuWalk v.paging.memory 3 v.kernelPml4 va := walk_eq_mmuWalk h.wf hkernel hlevel howner
  have hsettled : v.paging.Settled vmmLevelPml4 source := TreeIn.mono hsource fun _ hq => hq.2
  have hkernel₁ := hprep.extends_.kept hkernel
  have hmemKernel : s₁.memory v.kernelPml4 = v.paging.memory v.kernelPml4 := by
    rw [memory_of_tables hkernel, memory_of_tables hkernel₁]
  have hmemSource : s₁.memory source = v.paging.memory source :=
    hprep.extends_.memory_of_not_free hsource.root.2
  obtain ⟨hcopied, -, hdone⟩ := buildRoots_contents hkernel₁ hprep.stable
    (hsettled.of_extends hprep.extends_) nodup_tableIndices (.start hprep.inv) (fun _ _ => rfl)
    (fun _ hne => absurd rfl hne) hprep.build
  rw [hlookup', hlookup]
  have hlevel₃ : kt.level = 3 := hlevel
  -- one step of a walk, from a PML4 on
  have hstep : ∀ m p, mmuWalk m 3 p va =
      if isPresent (m p (pml4Index va)) = false then none
      else if isHuge (m p (pml4Index va)) then none
      else mmuWalk m 2 (entryAddress (m p (pml4Index va))) va := fun _ _ => rfl
  rw [hstep, hstep, hstep, hrow]
  generalize pml4Index va = i
  by_cases hpresent : isPresent (v.paging.memory v.kernelPml4 i) = true
  · -- the kernel root keeps its slot
    have hzero : roots i = 0 := by
      by_contra hne
      have hempty := (hprep.building.entry i hne).1
      rw [hmemKernel, hpresent] at hempty
      cases hempty
    rw [if_pos hpresent, if_pos hzero]
    by_cases hhuge : isHuge (v.paging.memory v.kernelPml4 i) = true
    · simp [hpresent, hhuge]
    · have hchild : entryChild kt.level (kt.entries i) =
          some (entryAddress (v.paging.memory v.kernelPml4 i)) := by
        rw [← memory_of_tables hkernel]
        exact entryChild_eq_some.mpr ⟨by omega, hpresent, by simpa using hhuge, rfl⟩
      obtain ⟨u, hu, hul, -⟩ := Tables.child_of_wf h.wf hkernel hchild
      have htree := h.treeIn_below hu (show u.level = 2 by omega) hkernel (by omega)
      simp only [hpresent, hhuge, Bool.true_eq_false, if_false, Bool.false_eq_true]
      exact htree.mmuWalk_eq hmem va
  · rw [if_neg hpresent]
    rw [Bool.not_eq_true] at hpresent
    by_cases hsome : isPresent (v.paging.memory source i) = true
    · -- the slot is a copy of the source's
      have hne : roots i ≠ 0 := by
        refine hdone i (mem_tableIndices i) ?_ ?_
        · rw [hmemKernel]
          exact hpresent
        · rw [hmemSource]
          exact hsome
      obtain ⟨-, u, hu, hul, -⟩ := hprep.building.root i hne
      have hhuge := (hprep.building.entry i hne).2.2
      rw [hmemSource] at hhuge
      have haligned : FrameAligned (roots i) :=
        (hprep.building.inv.frames hu).frameAligned hprep.building.inv.sound
      have hsame := hcopied i hne
      rw [hmemSource] at hsame
      have hchild : entryChild 3 (v.paging.memory source i) =
          some (entryAddress (v.paging.memory source i)) :=
        entryChild_eq_some.mpr ⟨by decide, hsome, hhuge, rfl⟩
      have htree : TreeIn s₁.memory 2 (entryAddress (v.paging.memory source i))
          fun q => ¬ v.paging.pmm.Free (frameOf q) :=
        TreeIn.congr (hsettled.child hchild) fun q hq => hprep.extends_.memory_of_not_free hq
      have hbelow := hprep.building.inv.treeIn_below hu hul (hext.kept hkernel)
        (by rw [hlevel₃]; decide)
      have hfinal := hsame.congr htree hbelow
        (fun q hq => (hprep.extends_.memory_of_not_free hq).symm)
        fun q hq => (publishRoots_memory hprep.source_ne roots s₂).1 q hq.1
      rw [if_neg hne]
      simp only [isPresent_copiedEntry haligned, isHuge_copiedEntry haligned,
        entryAddress_copiedEntry haligned, hsome, hhuge, Bool.true_eq_false, if_false,
        Bool.false_eq_true]
      exact hfinal.mmuWalk_eq va
    · -- neither hierarchy has the slot
      rw [Bool.not_eq_true] at hsome
      have hzero : roots i = 0 := by
        by_contra hne
        have hsource := (hprep.building.entry i hne).2.1
        rw [hmemSource, hsome] at hsource
        cases hsource
      rw [if_pos hzero, if_pos hpresent, if_pos hsome]

end Preparation

/-! ## Lost mappings -/

/-- The physical address `vmm_translate` reports for a leaf. -/
def leafAddress (va : Word) : ℕ × Word → Word :=
  onLeaf (fun pdpte => entryAddress pdpte ||| (va &&& 0x3FFFFFFF))
    (fun pde => entryAddress pde ||| (va &&& 0x1FFFFF)) fun pte =>
    entryAddress pte ||| (va &&& 0xFFF)

theorem vmmTranslate_eq (s : Paging) (root va : Word) :
    vmmTranslate s root va = (s.tables.lookup root va).map (leafAddress va) :=
  walkPageTables_eq s root va _ _ _

/-- Nothing is translated through a slot that is not present. -/
theorem Tables.lookup_eq_none_of_slot {root va : Word}
    (h : isPresent (s.memory root (pml4Index va)) = false) : s.tables.lookup root va = none := by
  unfold lookup
  cases hv : s.tables.verified vmmLevelPml4 root root with
  | none => exact walk_of_not_verified hv va
  | some t =>
      obtain ⟨ht, hl, ho⟩ := verified_eq_some.mp hv
      rw [walk_succ ht hl ho, ← memory_of_tables ht]
      exact if_pos h

/-- No mapping is lost between `s` and `s'`: what the kernel root translated is
translated alike, and what only the source mapped now has the source's leaf. -/
structure KeepsMappings (s s' : Paging) (kernel source : Word) : Prop where
  kept : ∀ va, Canonical va → (vmmTranslate s kernel va).isSome = true →
    vmmTranslate s' kernel va = vmmTranslate s kernel va
  gained : ∀ va leaf, Canonical va → vmmTranslate s kernel va = none →
    mmuWalk s.memory vmmLevelPml4 source va = some leaf →
    s'.tables.lookup kernel va = some leaf ∧ vmmTranslate s' kernel va = some (leafAddress va leaf)

/-- Through the PML4 slots the kernel root has, it maps all that the source maps. -/
def CoversSharedSlots (s : Paging) (kernel source : Word) : Prop :=
  ∀ va, Canonical va → isPresent (s.memory kernel (pml4Index va)) = true →
    (mmuWalk s.memory vmmLevelPml4 source va).isSome = true →
    (vmmTranslate s kernel va).isSome = true

theorem Mm.Inv.ne_kernel (h : m.Inv) {q : Word} (hq : m.vmm.paging.Foreign q) :
    q ≠ vmmGetPml4 m.vmm := by
  rintro rfl
  obtain ⟨t, ht, -⟩ := h.kernel
  exact some_ne_none t (ht.symm.trans hq.2.1)

/-- The effect of a preparation that succeeds, on lookups. -/
theorem Mm.Inv.prepare_lookup (h : m.Inv)
    (hsource : TreeIn m.vmm.paging.memory vmmLevelPml4 (m.vmm.cr3 &&& addressMask) fun q =>
      q ≠ vmmGetPml4 m.vmm ∧ ¬ m.vmm.paging.pmm.Free (frameOf q))
    (hok : (vmmPrepareAddressSpace m.vmm).1 = 0) (va : Word) :
    (vmmPrepareAddressSpace m.vmm).2.paging.tables.lookup (vmmGetPml4 m.vmm) va =
      if isPresent (m.vmm.paging.memory (vmmGetPml4 m.vmm) (pml4Index va)) = true then
        m.vmm.paging.tables.lookup (vmmGetPml4 m.vmm) va
      else mmuWalk m.vmm.paging.memory vmmLevelPml4 (m.vmm.cr3 &&& addressMask) va := by
  unfold vmmGetPml4 at hsource ⊢
  obtain ⟨kt, hkt, hkl, hko⟩ := h.kernel
  rcases vmmPrepareAddressSpace_stages h.paging hkt h.stable_cr3 with
    ⟨code, s', heq, -, -, hactive⟩ | ⟨s₁, cloned, roots, s₂, hprep, heq⟩
  · rw [heq] at hok
    exact absurd (hactive hok) hsource.root.1
  · rw [heq]
    dsimp only
    exact hprep.lookup h.paging hkt hkl hko hsource va

/-- **When a preparation keeps every mapping.**  In every reachable state and for every
source hierarchy outside the frames of the PMM, a `vmm_prepare_address_space` that
returns `0` loses no mapping exactly when the kernel root already maps all that the
source maps through the PML4 slots both have. -/
theorem prepare_keeps_iff (image : KernelImage) (boot : MmBoot) {ops : List MmOp}
    (hops : (mmSystem image).Admissible boot.start ops) {v : Vmm}
    (hv : ((mmSystem image).run boot.start ops).vmm = v) {source : Word}
    (hcr3 : v.cr3 &&& addressMask = source)
    (hsource : TreeIn v.paging.memory vmmLevelPml4 source
      fun q => q ≠ vmmGetPml4 v ∧ ¬ v.paging.pmm.Free (frameOf q))
    (hok : (vmmPrepareAddressSpace v).1 = 0) :
    KeepsMappings v.paging (vmmPrepareAddressSpace v).2.paging (vmmGetPml4 v) source ↔
      CoversSharedSlots v.paging (vmmGetPml4 v) source := by
  subst hv hcr3
  have hlookup := (Mm.inv_run image boot hops).prepare_lookup hsource hok
  set v := ((mmSystem image).run boot.start ops).vmm
  have hnone : ∀ va, vmmTranslate v.paging (vmmGetPml4 v) va = none ↔
      v.paging.tables.lookup (vmmGetPml4 v) va = none := by
    intro va
    rw [vmmTranslate_eq, map_eq_none_iff]
  constructor
  · -- an address lost is one the source maps through a shared slot
    intro hkeeps va hva hpresent hmapped
    by_contra hnot
    rw [Bool.not_eq_true, isSome_eq_false_iff, isNone_iff_eq_none] at hnot
    obtain ⟨leaf, hleaf⟩ := isSome_iff_exists.mp hmapped
    have hgained := (hkeeps.gained va leaf hva hnot hleaf).1
    have hold := hlookup va
    rw [if_pos hpresent, (hnone va).mp hnot] at hold
    exact some_ne_none leaf (hgained.symm.trans hold)
  · intro hcovers
    refine ⟨fun va hva hsome => ?_, fun va leaf hva habsent hleaf => ?_⟩
    · -- a translation passes through a slot that is present
      have hpresent : isPresent (v.paging.memory (vmmGetPml4 v) (pml4Index va)) = true := by
        by_contra hnot
        rw [vmmTranslate_isSome, Tables.lookup_eq_none_of_slot (by simpa using hnot)] at hsome
        cases hsome
      have hold := hlookup va
      rw [if_pos hpresent] at hold
      exact vmmTranslate_congr hold
    · have hpresent : ¬ isPresent (v.paging.memory (vmmGetPml4 v) (pml4Index va)) = true := by
        intro hpresent
        have hsome := hcovers va hva hpresent (by rw [hleaf]; rfl)
        rw [habsent] at hsome
        cases hsome
      have hnew := hlookup va
      rw [if_neg hpresent] at hnew
      have hgained := hnew.trans hleaf
      refine ⟨hgained, ?_⟩
      rw [vmmTranslate_eq, hgained, map_some]

/-- The kernel root starts out without slots. -/
theorem MmBoot.slot_start (boot : MmBoot) (index : Fin 512) :
    isPresent (boot.start.vmm.paging.memory (vmmGetPml4 boot.start.vmm) index) = false := by
  obtain ⟨root, s', spaces, hvmm, -, -, htab⟩ := boot.start_vmm
  rw [hvmm]
  change isPresent (s'.memory root index) = false
  rw [memory_of_tables htab]
  exact isPresent_zero

/-- A preparation leaves alone what the PMM does not hand out. -/
theorem Mm.Inv.prepare_frame (h : m.Inv) :
    m.vmm.paging.Frame (vmmPrepareAddressSpace m.vmm).2.paging := by
  obtain ⟨kt, hkt, hlevel, howner⟩ := h.kernel
  rcases vmmPrepareAddressSpace_cases h.paging hkt hlevel howner h.stable_cr3 with
    ⟨code, s', heq, -, hsame⟩ | ⟨s', cloned, heq, -, hframe, -⟩
  · rw [heq]
    exact hsame.frame
  · rw [heq]
    exact hframe

/-- A kernel root without slots takes over everything. -/
theorem Mm.Inv.prepare_covers (h : m.Inv) (hcr3 : m.vmm.cr3 &&& addressMask = source)
    (htree : TreeIn m.vmm.paging.memory vmmLevelPml4 source m.vmm.paging.Foreign)
    (hempty : ∀ i, isPresent (m.vmm.paging.memory (vmmGetPml4 m.vmm) i) = false)
    (hok : (vmmPrepareAddressSpace m.vmm).1 = 0) :
    CoversSharedSlots (vmmPrepareAddressSpace m.vmm).2.paging (vmmGetPml4 m.vmm) source := by
  intro va _ _ hmapped
  subst hcr3
  have hlookup := h.prepare_lookup (htree.mono fun q hq => ⟨h.ne_kernel hq, hq.2.2⟩) hok va
  rw [hempty, if_neg Bool.false_ne_true] at hlookup
  rw [vmmTranslate_isSome, hlookup]
  rwa [htree.mmuWalk_eq fun q hq => (h.prepare_frame.foreign hq).2.1] at hmapped

/-- The boot loader's slot has been merged, and a second preparation loses nothing. -/
theorem prepare_keeps_iff_demo :
    let v := ((mmSystem demoImage).run loaderBoot.start [.prepare]).vmm
    isPresent (v.paging.memory 0x2000 0) = true ∧
      KeepsMappings v.paging (vmmPrepareAddressSpace v).2.paging (vmmGetPml4 v) 0x1F000 := by
  have hinv := loaderBoot.inv_start
  have hops : (mmSystem demoImage).Admissible loaderBoot.start [.prepare] := by decide +kernel
  have hcovers := hinv.prepare_covers (by decide +kernel) treeIn_loaderBoot loaderBoot.slot_start
    (by decide +kernel)
  have hframe := hinv.prepare_frame
  have hrun : ∀ m : Mm, (vmmPrepareAddressSpace m.vmm).2 =
      ((mmSystem demoImage).run m [.prepare]).vmm := fun _ => rfl
  rw [hrun] at hcovers hframe
  have hkernel : vmmGetPml4 ((mmSystem demoImage).run loaderBoot.start [.prepare]).vmm =
      vmmGetPml4 loaderBoot.start.vmm := by decide +kernel
  have htree := (treeIn_loaderBoot.congr fun q hq => (hframe.foreign hq).2.1).mono
    fun q hq => (hframe.foreign hq).1
  refine ⟨by decide +kernel, (@prepare_keeps_iff demoImage loaderBoot _ hops _ rfl 0x1F000
    (by decide +kernel) (htree.mono fun q hq =>
      ⟨(Mm.inv_run demoImage loaderBoot hops).ne_kernel hq, hq.2.2⟩) (by decide +kernel)).mpr ?_⟩
  rw [hkernel]
  exact hcovers

/-- One page mapped in the kernel's lowest slot costs the boot loader's mapping of the
whole slot. -/
theorem shared_slot_lost :
    (mmSystem demoImage).Admissible loaderBoot.start [.mapPage 0x2000 0x400000 0x8000 2] ∧
      let v := ((mmSystem demoImage).run loaderBoot.start [.mapPage 0x2000 0x400000 0x8000 2]).vmm
      (vmmPrepareAddressSpace v).1 = 0 ∧ vmmGetPml4 v = 0x2000 ∧ v.cr3 &&& addressMask = 0x1F000 ∧
        mmuWalk v.paging.memory vmmLevelPml4 0x1F000 0x600000 = some (2, 0x83) ∧
        vmmTranslate (vmmPrepareAddressSpace v).2.paging 0x2000 0x600000 = none := by
  have hops : (mmSystem demoImage).Admissible loaderBoot.start
      [.mapPage 0x2000 0x400000 0x8000 2] := by decide +kernel
  refine ⟨hops, ?_⟩
  have hinv := Mm.inv_run demoImage loaderBoot hops
  have hframe := (vmmMapPage_evolves loaderBoot.inv_start.paging 0x2000 0x400000 0x8000 2).frame
  have hrun : ∀ m : Mm, (vmmMapPage m.vmm.paging 0x2000 0x400000 0x8000 2).2 =
      ((mmSystem demoImage).run m [.mapPage 0x2000 0x400000 0x8000 2]).vmm.paging := fun _ => rfl
  rw [hrun] at hframe
  have hok : (vmmPrepareAddressSpace ((mmSystem demoImage).run loaderBoot.start
      [.mapPage 0x2000 0x400000 0x8000 2]).vmm).1 = 0 := by decide +kernel
  have hkernel : vmmGetPml4 ((mmSystem demoImage).run loaderBoot.start
      [.mapPage 0x2000 0x400000 0x8000 2]).vmm = 0x2000 := by decide +kernel
  have hcr3 : ((mmSystem demoImage).run loaderBoot.start
      [.mapPage 0x2000 0x400000 0x8000 2]).vmm.cr3 &&& addressMask = 0x1F000 := by decide +kernel
  have hmapped : mmuWalk ((mmSystem demoImage).run loaderBoot.start
      [.mapPage 0x2000 0x400000 0x8000 2]).vmm.paging.memory vmmLevelPml4 0x1F000 0x600000 =
        some (2, 0x83) := by decide +kernel
  have hbefore : vmmTranslate ((mmSystem demoImage).run loaderBoot.start
      [.mapPage 0x2000 0x400000 0x8000 2]).vmm.paging 0x2000 0x600000 = none := by decide +kernel
  have hpresent : isPresent (((mmSystem demoImage).run loaderBoot.start
      [.mapPage 0x2000 0x400000 0x8000 2]).vmm.paging.memory 0x2000 (pml4Index 0x600000)) =
      true := by
    decide +kernel
  have htree := (treeIn_loaderBoot.congr fun q hq => (hframe.foreign hq).2.1).mono
    fun q hq => (hframe.foreign hq).1
  generalize (mmSystem demoImage).run loaderBoot.start [.mapPage 0x2000 0x400000 0x8000 2] = m at *
  refine ⟨hok, hkernel, hcr3, hmapped, ?_⟩
  have hlookup := hinv.prepare_lookup (by
    rw [hcr3]
    exact htree.mono fun q hq => ⟨hinv.ne_kernel hq, hq.2.2⟩) hok 0x600000
  rw [hkernel, if_pos hpresent] at hlookup
  exact (vmmTranslate_congr hlookup).trans hbefore

end Batos
