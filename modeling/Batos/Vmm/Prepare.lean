import Batos.Vmm.AddressSpace
import Batos.Vmm.Copy

/-!
# `vmm_prepare_address_space`

Preparation clones the active hierarchy as a whole, then copies every subtree the
kernel root lacks, and only when all copies exist publishes them in the kernel
root.  Until then the copies are loose trees, whose roots the source keeps in a
local array; a failure discards all of them and the clone.

The publication reads the source entries a second time.  It links each copy with
the flags found then, so it matters that nothing done in between can have changed
them: the source root is a live table, which construction leaves alone, or lies
outside what the PMM hands out (`Paging.Stable`).
-/

namespace Batos

open Function List

variable {s s' : Paging} {q p cloned source : Word} {loose : Set Word} {t u kt : Table}
  {roots : Fin 512 → Word} {i : Fin 512} {indices : List (Fin 512)} {v : Vmm}

/-- A page whose contents no construction changes. -/
def Paging.Stable (s : Paging) (q : Word) : Prop := s.tables q ≠ none ∨ s.Foreign q

/-- Every record is still there. -/
def Paging.KeepsRecords (s s' : Paging) : Prop :=
  ∀ {q t}, s.tables q = some t →
    ∃ t', s'.tables q = some t' ∧ t'.level = t.level ∧ t'.owner = t.owner

theorem Paging.Extends.keepsRecords (h : s.Extends s') : s.KeepsRecords s' :=
  fun {_ t} ht => ⟨t, h.kept ht, rfl, rfl⟩

theorem Paging.Extends.memory_stable (h : s.Extends s') (hq : s.Stable q) :
    s'.memory q = s.memory q := by
  rcases hq with hsome | hforeign
  · obtain ⟨t, ht⟩ := Option.ne_none_iff_exists'.mp hsome
    rw [memory_of_tables ht, memory_of_tables (h.kept ht)]
  · exact h.memory q hforeign.2.1 hforeign.2.2

theorem Paging.Inv.insert_top (h : s.Inv loose) (ht : s.tables p = some t)
    (hl : t.level = vmmLevelPml4) :
    s.Inv (insert p loose) :=
  { h with wf := h.wf.insert_top (o := t.owner) (by rw [Tables.forest_info ht, hl]) }

theorem Paging.Inv.of_insert_top (h : s.Inv (insert p loose)) (ht : s.tables p = some t)
    (hl : t.level = vmmLevelPml4) :
    s.Inv loose :=
  { h with wf := h.wf.of_insert_top (o := t.owner) (by rw [Tables.forest_info ht, hl]) }

theorem Paging.Inv.aligned (h : s.Inv loose) (ht : s.tables q = some t) : q.toNat % 4096 = 0 :=
  (h.frames ht).aligned

/-! ## Building the copies -/

/-- The copies at these indices. -/
def pendingRoots (roots : Fin 512 → Word) (indices : List (Fin 512)) : Set Word :=
  { p | ∃ i ∈ indices, roots i ≠ 0 ∧ roots i = p }

theorem pendingRoots_nil (roots : Fin 512 → Word) : pendingRoots roots [] = ∅ := by
  ext p
  simp [pendingRoots]

theorem pendingRoots_cons_zero (h : roots i = 0) (indices : List (Fin 512)) :
    pendingRoots roots (i :: indices) = pendingRoots roots indices := by
  ext p
  simp [pendingRoots, h]

theorem pendingRoots_cons (h : roots i ≠ 0) (indices : List (Fin 512)) :
    pendingRoots roots (i :: indices) = insert (roots i) (pendingRoots roots indices) := by
  ext p
  constructor
  · rintro ⟨j, hj, hne, rfl⟩
    rcases mem_cons.mp hj with rfl | hj
    · exact Set.mem_insert _ _
    · exact Set.mem_insert_of_mem _ ⟨j, hj, hne, rfl⟩
  · intro hp
    rcases Set.mem_insert_iff.mp hp with rfl | ⟨j, hj, hne, rfl⟩
    · exact ⟨i, mem_cons_self .., h, rfl⟩
    · exact ⟨j, mem_cons_of_mem _ hj, hne, rfl⟩

/-- The copies made so far, on top of the state `s₁` left by the clone. -/
structure Building (s₁ : Paging) (kernel source : Word) (roots : Fin 512 → Word) (s : Paging) :
    Prop where
  inv : s.Inv (pendingRoots roots tableIndices)
  extends_ : s₁.Extends s
  injective : ∀ i j, roots i ≠ 0 → roots i = roots j → i = j
  root : ∀ i, roots i ≠ 0 → s₁.tables (roots i) = none ∧
    ∃ u, s.tables (roots i) = some u ∧ u.level = vmmLevelPdpt ∧ u.owner = kernel
  entry : ∀ i, roots i ≠ 0 → isPresent (s₁.memory kernel i) = false ∧
    isPresent (s₁.memory source i) = true ∧ isHuge (s₁.memory source i) = false
  low : ∀ q t, s₁.tables q = none → s.tables q = some t → t.level < vmmLevelPml4

section Building

variable {s₁ s : Paging} {kernel source : Word} {roots : Fin 512 → Word}

theorem Building.start (h : s₁.Inv ∅) : Building s₁ kernel source (fun _ => 0) s₁ where
  inv := by
    have hempty : pendingRoots (fun _ => 0) tableIndices = ∅ := by
      ext p
      simp [pendingRoots]
    rw [hempty]
    exact h
  extends_ := .of_same (.refl s₁)
  injective := fun _ _ hne => absurd rfl hne
  root := fun _ hne => absurd rfl hne
  entry := fun _ hne => absurd rfl hne
  low := by
    intro q t hnone hq
    rw [hnone] at hq
    cases hq

/-- A failed copy changes nothing. -/
theorem Building.of_same (h : Building s₁ kernel source roots s) (hsame : s.Same s')
    (hinv : s'.Inv (pendingRoots roots tableIndices)) :
    Building s₁ kernel source roots s' where
  inv := hinv
  extends_ := h.extends_.trans (.of_same hsame)
  injective := h.injective
  root := by
    intro i hi
    rw [hsame.tables]
    exact h.root i hi
  entry := h.entry
  low := by
    rw [hsame.tables]
    exact h.low

/-- One more copy. -/
theorem Building.add {c : Word} {index : Fin 512} (h : Building s₁ kernel source roots s)
    (hzero : roots index = 0)
    (hentry : isPresent (s₁.memory kernel index) = false ∧ isPresent (s₁.memory source index) =
      true ∧ isHuge (s₁.memory source index) = false)
    (hinv : s'.Inv (insert c (pendingRoots roots tableIndices))) (hext : s.Extends s')
    (hnew : s.tables c = none) (hu : s'.tables c = some u) (hul : u.level = vmmLevelPdpt)
    (huo : u.owner = kernel)
    (hlow : ∀ q t, s.tables q = none → s'.tables q = some t → q = c ∨ t.level < vmmLevelPdpt) :
    Building s₁ kernel source (update roots index c) s' := by
  have hc : c ≠ 0 := (hinv.frames hu).nonzero
  have hupdate : ∀ i, update roots index c i ≠ 0 →
      i = index ∨ (i ≠ index ∧ roots i ≠ 0 ∧ update roots index c i = roots i) := by
    intro i hi
    by_cases heq : i = index
    · exact .inl heq
    · rw [update_of_ne heq] at hi
      exact .inr ⟨heq, hi, update_of_ne heq _ _⟩
  -- an earlier root is registered, the new one was not
  have hother : ∀ i, roots i ≠ 0 → roots i ≠ c := by
    intro i hi heq
    obtain ⟨-, v, hv, -⟩ := h.root i hi
    rw [heq, hnew] at hv
    cases hv
  have hpending : pendingRoots (update roots index c) tableIndices =
      insert c (pendingRoots roots tableIndices) := by
    ext p
    constructor
    · rintro ⟨i, -, hne, rfl⟩
      rcases hupdate i hne with rfl | ⟨-, hroot, heq⟩
      · rw [update_self]
        exact Set.mem_insert _ _
      · rw [heq]
        exact Set.mem_insert_of_mem _ ⟨i, mem_tableIndices i, hroot, rfl⟩
    · intro hp
      rcases Set.mem_insert_iff.mp hp with rfl | ⟨i, -, hne, rfl⟩
      · refine ⟨index, mem_tableIndices index, ?_, update_self _ _ _⟩
        rw [update_self]
        exact hc
      · have hi : i ≠ index := by
          rintro rfl
          exact hne hzero
        refine ⟨i, mem_tableIndices i, ?_, update_of_ne hi _ _⟩
        rw [update_of_ne hi]
        exact hne
  refine ⟨by rw [hpending]; exact hinv, h.extends_.trans hext, ?_, ?_, ?_, ?_⟩
  · intro i j hi heq
    have hj : update roots index c j ≠ 0 := heq ▸ hi
    rcases hupdate i hi with rfl | ⟨hii, hri, hei⟩
    · rcases hupdate j hj with rfl | ⟨-, hrj, hej⟩
      · rfl
      · rw [update_self, hej] at heq
        exact absurd heq.symm (hother j hrj)
    · rcases hupdate j hj with rfl | ⟨-, hrj, hej⟩
      · rw [update_self, hei] at heq
        exact absurd heq (hother i hri)
      · rw [hei, hej] at heq
        exact h.injective i j hri heq
  · intro i hi
    rcases hupdate i hi with rfl | ⟨-, hri, hei⟩
    · rw [update_self]
      refine ⟨?_, u, hu, hul, huo⟩
      cases hs₁ : s₁.tables c with
      | none => rfl
      | some t =>
          rw [h.extends_.kept hs₁] at hnew
          cases hnew
    · rw [hei]
      obtain ⟨hnone, v, hv, hvl⟩ := h.root i hri
      exact ⟨hnone, v, hext.kept hv, hvl⟩
  · intro i hi
    rcases hupdate i hi with rfl | ⟨-, hri, -⟩
    · exact hentry
    · exact h.entry i hri
  · intro q t hnone hq
    cases hmid : s.tables q with
    | some v =>
        obtain rfl := Option.some.inj ((hext.kept hmid).symm.trans hq)
        exact h.low q v hnone hmid
    | none =>
        rcases hlow q t hmid hq with rfl | hlt
        · obtain rfl := Option.some.inj (hu.symm.trans hq)
          rw [hul]
          decide
        · exact hlt.trans (by decide)

/-- **One round of the building loop** passes over a slot the kernel root has or the source
lacks, fails, or makes a copy. -/
theorem Building.round (h : Building s₁ kernel source roots s) (cloned : Word)
    (hkernel : s₁.tables kernel = some kt) (hsource : s₁.Stable source) {index : Fin 512}
    (hindex : index ∉ indices) (hzero : ∀ i ∈ index :: indices, roots i = 0)
    {result : Option (Fin 512 → Word) × Paging}
    (hrun : buildRoots kernel source cloned (index :: indices) roots s = result) :
    ((isPresent (s₁.memory kernel index) = true ∨ isPresent (s₁.memory source index) = false) ∧
        buildRoots kernel source cloned indices roots s = result) ∨
      (∃ s', Building s₁ kernel source roots s' ∧ (none, discardRoots roots cloned s') = result) ∨
      ∃ c s', copyPageTableSubtree vmmLevelPdpt kernel s (entryAddress (s₁.memory source index)) =
          (some c, s') ∧ c ≠ 0 ∧ s.Extends s' ∧
        Building s₁ kernel source (update roots index c) s' ∧
        (∀ i ∈ indices, update roots index c i = 0) ∧
        buildRoots kernel source cloned indices (update roots index c) s' = result := by
  have hmemKernel : s.memory kernel = s₁.memory kernel :=
    h.extends_.memory_stable (.inl (by rw [hkernel]; exact Option.some_ne_none kt))
  have hmemSource : s.memory source = s₁.memory source := h.extends_.memory_stable hsource
  rw [buildRoots, hmemKernel, hmemSource] at hrun
  by_cases hkernelEntry : isPresent (s₁.memory kernel index) = true
  · rw [if_pos hkernelEntry] at hrun
    exact .inl ⟨.inl hkernelEntry, hrun⟩
  rw [if_neg hkernelEntry] at hrun
  dsimp only at hrun
  by_cases hpresent : isPresent (s₁.memory source index) = false
  · rw [if_pos hpresent] at hrun
    exact .inl ⟨.inr hpresent, hrun⟩
  rw [if_neg hpresent] at hrun
  by_cases hhuge : isHuge (s₁.memory source index) = true
  · rw [if_pos hhuge] at hrun
    exact .inr (.inl ⟨s, h, hrun⟩)
  rw [if_neg hhuge] at hrun
  rcases copyPageTableSubtree_spec vmmLevelPdpt le_rfl kernel s
    (entryAddress (s₁.memory source index)) _ h.inv with
    ⟨s', heq, hinv, hsame⟩ | ⟨c, s', u, heq, hinv, hext, hnew, hu, hul, huo, hlow⟩
  · rw [heq] at hrun
    exact .inr (.inl ⟨s', h.of_same hsame hinv, hrun⟩)
  · rw [heq] at hrun
    have hbuild := h.add (hzero index (mem_cons_self ..)) ⟨by simpa using hkernelEntry,
      by simpa using hpresent, by simpa using hhuge⟩ hinv hext hnew hu hul huo hlow
    refine .inr (.inr ⟨c, s', heq, (hinv.frames hu).nonzero, hext, hbuild, fun i hi => ?_, hrun⟩)
    rw [update_of_ne (show i ≠ index from fun heq => hindex (heq ▸ hi))]
    exact hzero i (mem_cons_of_mem _ hi)

/-- **The building loop**: it ends with all copies made, or with a rollback of the
copies made so far. -/
theorem buildRoots_spec (cloned : Word) (hkernel : s₁.tables kernel = some kt)
    (hsource : s₁.Stable source) (hnodup : indices.Nodup) (h : Building s₁ kernel source roots s)
    (hzero : ∀ i ∈ indices, roots i = 0) :
    (∃ roots' s', Building s₁ kernel source roots' s' ∧
        buildRoots kernel source cloned indices roots s =
          (none, discardRoots roots' cloned s')) ∨
      ∃ roots' s', Building s₁ kernel source roots' s' ∧
        buildRoots kernel source cloned indices roots s = (some roots', s') := by
  induction indices generalizing roots s with
  | nil => exact .inr ⟨roots, s, h, rfl⟩
  | cons index indices ih =>
      obtain ⟨hindex, hnodup⟩ := nodup_cons.mp hnodup
      rcases h.round cloned hkernel hsource hindex hzero rfl with
        ⟨-, heq⟩ | ⟨s', hbuild, heq⟩ | ⟨c, s', -, -, -, hbuild, hrest, heq⟩ <;> rw [← heq]
      · exact ih hnodup h fun i hi => hzero i (mem_cons_of_mem _ hi)
      · exact .inl ⟨roots, s', hbuild, rfl⟩
      · exact ih hnodup hbuild hrest

/-- Discarding the copies at these indices. -/
theorem foldl_discard (hinv₁ : s₁.Inv ∅) (hnodup : indices.Nodup)
    (hinv : s.Inv (pendingRoots roots indices)) (hext : s₁.Extends s)
    (hinjective : ∀ i j, roots i ≠ 0 → roots i = roots j → i = j)
    (hroot : ∀ i ∈ indices, roots i ≠ 0 → s₁.tables (roots i) = none ∧ ∃ u, s.tables (roots i) =
      some u ∧ u.level = vmmLevelPdpt)
    (hlow : ∀ q t, s₁.tables q = none → s.tables q = some t → t.level < vmmLevelPml4)
    (hs' : indices.foldl (fun s index => if roots index = 0 then s
      else discardPageTableTree vmmLevelPdpt s (roots index)) s = s') :
    s'.Inv ∅ ∧ s₁.Same s' := by
  induction indices generalizing s with
  | nil =>
      obtain rfl : s = s' := hs'
      rw [pendingRoots_nil] at hinv
      exact ⟨hinv, hext.same_of_levels hinv₁ hinv le_rfl hlow⟩
  | cons index indices ih =>
      obtain ⟨hindex, hnodup⟩ := nodup_cons.mp hnodup
      rw [foldl_cons] at hs'
      by_cases hzero : roots index = 0
      · rw [if_pos hzero] at hs'
        rw [pendingRoots_cons_zero hzero] at hinv
        exact ih hnodup hinv hext (fun i hi => hroot i (mem_cons_of_mem _ hi)) hlow hs'
      · rw [if_neg hzero] at hs'
        have hloose := hinv.wf
        rw [pendingRoots_cons hzero] at hinv
        have hnot : roots index ∉ pendingRoots roots indices := by
          rintro ⟨j, hj, hne, heq⟩
          exact hindex (hinjective j index hne heq ▸ hj)
        obtain ⟨hnew, u, hu, hul⟩ := hroot index (mem_cons_self ..) hzero
        obtain ⟨hinv', -, hprunes⟩ :=
          releaseTree_spec true vmmLevelPdpt s (roots index) u _ hinv hnot hu hul
        refine ih hnodup hinv' (hext.prune hinv₁ hinv (Set.empty_subset _) hnew hprunes) ?_ ?_ hs'
        · intro j hj hne
          obtain ⟨hjnew, v, hv, hvl⟩ := hroot j (mem_cons_of_mem _ hj) hne
          refine ⟨hjnew, v, (hprunes.outside _ fun hdesc => hindex ?_).trans hv, hvl⟩
          have heq := hloose.eq_of_desc_loose ⟨j, mem_cons_of_mem _ hj, hne, rfl⟩ hdesc
          exact hinjective j index hne heq ▸ hj
        · intro q t hnone hq
          obtain ⟨v, hv, hlv, -⟩ := hprunes.sub hq
          rw [hlv]
          exact hlow q v hnone hv

/-- **The rollback of a preparation leaves nothing behind.** -/
theorem discardRoots_spec {s₀ : Paging} (hinv₀ : s₀.Inv ∅) (hext₀ : s₀.Extends s₁)
    (hinv₁ : s₁.Inv ∅) (hnew : s₀.tables cloned = none) (hu : s₁.tables cloned = some u)
    (hul : u.level = vmmLevelPml4)
    (hlow : ∀ q t, s₀.tables q = none → s₁.tables q = some t → q = cloned ∨ t.level < vmmLevelPml4)
    (h : Building s₁ kernel source roots s) :
    (discardRoots roots cloned s).Inv ∅ ∧ s₀.Same (discardRoots roots cloned s) := by
  obtain ⟨hinv₂, hsame₂⟩ := foldl_discard hinv₁ nodup_tableIndices h.inv h.extends_ h.injective
    (fun i _ hi => by
      obtain ⟨hnone, v, hv, hvl, -⟩ := h.root i hi
      exact ⟨hnone, v, hv, hvl⟩) h.low rfl
  unfold discardRoots
  set s₂ := tableIndices.foldl (fun s index => if roots index = 0 then s
    else discardPageTableTree vmmLevelPdpt s (roots index)) s
  have hu₂ : s₂.tables cloned = some u := by
    rw [hsame₂.tables]
    exact hu
  obtain ⟨hinv₃, hgone, hprunes⟩ := releaseTree_spec true vmmLevelPml4 s₂ cloned u ∅
    (hinv₂.insert_top hu₂ hul) (Set.notMem_empty _) hu₂ hul
  refine ⟨hinv₃, ?_⟩
  have hext₂ : s₀.Extends s₂ := hext₀.trans (.of_same hsame₂)
  have hext₃ := hext₂.prune hinv₀ hinv₂ (Set.empty_subset _) hnew hprunes
  refine hext₃.same_of_levels hinv₀ hinv₃ le_rfl fun q t hnone hq => ?_
  obtain ⟨v, hv, hlv, -⟩ := hprunes.sub hq
  rw [hsame₂.tables] at hv
  rw [hlv]
  refine (hlow q v hnone hv).resolve_left ?_
  rintro rfl
  rw [hgone] at hq
  cases hq

end Building

/-! ## Publishing the copies -/

/-- Publishing the copies at these indices in the kernel root. -/
theorem foldl_publish {kernel : Word} (hne : source ≠ kernel)
    (hinjective : ∀ i j, roots i ≠ 0 → roots i = roots j → i = j) (hnodup : indices.Nodup)
    (hinv : s.Inv (pendingRoots roots indices)) (hkernel : s.tables kernel = some kt)
    (hlevel : kt.level = vmmLevelPml4) (howner : kt.owner = kernel)
    (hroot : ∀ i ∈ indices, roots i ≠ 0 → ∃ u, s.tables (roots i) = some u ∧
      u.level = vmmLevelPdpt ∧ u.owner = kernel)
    (hentry : ∀ i ∈ indices, roots i ≠ 0 → isPresent (kt.entries i) = false ∧
      isPresent (s.memory source i) = true ∧ isHuge (s.memory source i) = false)
    (hs' : indices.foldl (fun s index => if roots index = 0 then s
      else s.write kernel index (copiedEntry (roots index) (s.memory source index))) s = s') :
    s'.Inv ∅ ∧ s.Frame s' ∧ s.KeepsRecords s' := by
  induction indices generalizing s kt with
  | nil =>
      obtain rfl : s = s' := hs'
      rw [pendingRoots_nil] at hinv
      exact ⟨hinv, .refl s, fun {_ t} ht => ⟨t, ht, rfl, rfl⟩⟩
  | cons index indices ih =>
      obtain ⟨hindex, hnodup⟩ := nodup_cons.mp hnodup
      rw [foldl_cons] at hs'
      by_cases hzero : roots index = 0
      · rw [if_pos hzero] at hs'
        rw [pendingRoots_cons_zero hzero] at hinv
        exact ih hnodup hinv hkernel hlevel howner (fun i hi => hroot i (mem_cons_of_mem _ hi))
          (fun i hi => hentry i (mem_cons_of_mem _ hi)) hs'
      · rw [if_neg hzero] at hs'
        rw [pendingRoots_cons hzero] at hinv
        obtain ⟨u, hu, hul, huo⟩ := hroot index (mem_cons_self ..) hzero
        obtain ⟨hempty, hpresent, hhuge⟩ := hentry index (mem_cons_self ..) hzero
        have haligned : FrameAligned (roots index) := (hinv.frames hu).frameAligned hinv.sound
        have hnot : roots index ∉ pendingRoots roots indices := by
          rintro ⟨j, hj, hjne, heq⟩
          exact hindex (hinjective j index hjne heq ▸ hj)
        -- one store links the copy into the kernel root
        set entry := copiedEntry (roots index) (s.memory source index)
        have hinv' : (s.write kernel index entry).Inv (pendingRoots roots indices) := by
          refine inv_write_link hinv hnot hkernel hu (entryChild_of_not_present hempty) ?_ ?_ ?_
          · refine entryChild_eq_some.mpr ⟨?_, ?_, ?_, entryAddress_copiedEntry haligned _⟩
            · rw [hlevel]
              decide
            · rw [isPresent_copiedEntry haligned]
              exact hpresent
            · rw [isHuge_copiedEntry haligned]
              exact hhuge
          · rw [hlevel, hul]
          · rw [howner, huo]
        have hkernel' : (s.write kernel index entry).tables kernel =
            some { kt with entries := update kt.entries index entry } := by
          rw [tables_write, Tables.writeEntry_self hkernel]
        have hother : ∀ q, q ≠ kernel → (s.write kernel index entry).tables q = s.tables q := by
          intro q hq
          rw [tables_write, Tables.writeEntry_of_ne hq]
        obtain ⟨hfinal, hframe, hkeeps⟩ := ih hnodup hinv' hkernel' hlevel howner
          (fun j hj hjne => by
            obtain ⟨v, hv, hvl, hvo⟩ := hroot j (mem_cons_of_mem _ hj) hjne
            refine ⟨v, (hother _ ?_).trans hv, hvl, hvo⟩
            intro heq
            rw [heq, hkernel] at hv
            obtain rfl := Option.some.inj hv
            exact absurd (hlevel.symm.trans hvl) (by decide))
          (fun j hj hjne => by
            obtain ⟨he, hmemory⟩ := hentry j (mem_cons_of_mem _ hj) hjne
            rw [memory_write_of_ne hne]
            refine ⟨?_, hmemory⟩
            change isPresent (update kt.entries index entry j) = false
            rw [update_of_ne (show j ≠ index from fun heq => hindex (heq ▸ hj))]
            exact he) hs'
        refine ⟨hfinal, (frame_write hkernel index entry).trans hframe, fun {q t} hq => ?_⟩
        by_cases hqk : q = kernel
        · subst hqk
          obtain rfl := Option.some.inj (hkernel.symm.trans hq)
          obtain ⟨t', ht', hl', ho'⟩ := hkeeps hkernel'
          exact ⟨t', ht', hl', ho'⟩
        · exact hkeeps ((hother q hqk).trans hq)

/-! ## The whole call -/

/-- The stages of a preparation that succeeds: the clone, and the copies that are then
published. -/
structure Preparation (v : Vmm) (source : Word) (s₁ : Paging) (cloned : Word)
    (roots : Fin 512 → Word) (s₂ : Paging) : Prop where
  source_ne : source ≠ v.kernelPml4
  clone : clonePageTable vmmLevelPml4 0 v.paging source = (some cloned, s₁)
  inv : s₁.Inv ∅
  extends_ : v.paging.Extends s₁
  low : ∀ q t, v.paging.tables q = none → s₁.tables q = some t → q = cloned ∨ t.level < vmmLevelPml4
  build : buildRoots v.kernelPml4 source cloned tableIndices (fun _ => 0) s₁ = (some roots, s₂)
  building : Building s₁ v.kernelPml4 source roots s₂
  stable : s₁.Stable source

/-- **The stages of `vmm_prepare_address_space`** once it has a source to copy. -/
theorem vmmPrepareAddressSpace_stages (h : v.paging.Inv ∅)
    (hkernel : v.paging.tables v.kernelPml4 = some kt)
    (hsource : v.paging.Stable (v.cr3 &&& addressMask)) :
    (∃ code s', vmmPrepareAddressSpace v = (code, { v with paging := s' }) ∧ s'.Inv ∅ ∧
        v.paging.Same s' ∧ (code = 0 → v.cr3 &&& addressMask = v.kernelPml4)) ∨
      ∃ s₁ cloned roots s₂, Preparation v (v.cr3 &&& addressMask) s₁ cloned roots s₂ ∧
        vmmPrepareAddressSpace v =
          (0, { v with
            paging := publishRoots v.kernelPml4 (v.cr3 &&& addressMask) roots s₂
            lastClonedPml4 := cloned }) := by
  have hfail : (-1 : ℤ) = 0 → v.cr3 &&& addressMask = v.kernelPml4 :=
    fun hzero => absurd hzero (by decide)
  unfold vmmPrepareAddressSpace
  by_cases hzero : v.kernelPml4 = 0
  · rw [if_pos hzero]
    exact .inl ⟨-1, v.paging, rfl, h, .refl _, hfail⟩
  rw [if_neg hzero]
  dsimp only
  set source := v.cr3 &&& addressMask
  by_cases hcr3 : source = 0
  · rw [if_pos hcr3]
    exact .inl ⟨-1, v.paging, rfl, h, .refl _, hfail⟩
  rw [if_neg hcr3]
  by_cases hactive : source = v.kernelPml4
  · rw [if_pos hactive]
    exact .inl ⟨0, v.paging, rfl, h, .refl _, fun _ => hactive⟩
  rw [if_neg hactive]
  rcases clonePageTable_spec vmmLevelPml4 le_rfl 0 (fun _ => rfl) v.paging source ∅ h with
    ⟨s₁, heq, hinv, hsame⟩ | ⟨cloned, s₁, u, heq, hinv, hext, hnew, hu, hul, -, hlow⟩
  · rw [heq]
    exact .inl ⟨-1, s₁, rfl, hinv, hsame, hfail⟩
  have hclone := heq
  rw [heq]
  dsimp only
  have hinv₁ : s₁.Inv ∅ := hinv.of_insert_top hu hul
  have hkernel₁ : s₁.tables v.kernelPml4 = some kt := hext.kept hkernel
  have hsource₁ : s₁.Stable source := by
    rcases hsource with hsome | hforeign
    · obtain ⟨t, ht⟩ := Option.ne_none_iff_exists'.mp hsome
      exact .inl (by rw [hext.kept ht]; exact Option.some_ne_none t)
    · exact .inr ((hext.frame hinv₁.aligned).foreign hforeign).1
  rcases buildRoots_spec cloned hkernel₁ hsource₁ nodup_tableIndices (.start hinv₁)
    (fun _ _ => rfl) with ⟨roots, s₂, hbuild, heq⟩ | ⟨roots, s₂, hbuild, heq⟩
  · rw [heq]
    obtain ⟨hinv', hsame'⟩ := discardRoots_spec h hext hinv₁ hnew hu hul hlow hbuild
    exact .inl ⟨-1, _, rfl, hinv', hsame', hfail⟩
  · refine .inr ⟨s₁, cloned, roots, s₂,
      ⟨hactive, hclone, hinv₁, hext, hlow, heq, hbuild, hsource₁⟩, ?_⟩
    rw [heq]

/-- The publication of a preparation. -/
theorem Preparation.publish {s₁ s₂ : Paging} (hprep : Preparation v source s₁ cloned roots s₂)
    (hkernel : v.paging.tables v.kernelPml4 = some kt) (hlevel : kt.level = vmmLevelPml4)
    (howner : kt.owner = v.kernelPml4) :
    (publishRoots v.kernelPml4 source roots s₂).Inv ∅ ∧
      s₂.Frame (publishRoots v.kernelPml4 source roots s₂) ∧
      s₂.KeepsRecords (publishRoots v.kernelPml4 source roots s₂) := by
  have hbuild := hprep.building
  have hkernel₁ := hprep.extends_.kept hkernel
  refine foldl_publish hprep.source_ne hbuild.injective nodup_tableIndices hbuild.inv
    (hbuild.extends_.kept hkernel₁) hlevel howner (fun i _ hi => (hbuild.root i hi).2) ?_ rfl
  intro i _ hi
  obtain ⟨he, hp, hh⟩ := hbuild.entry i hi
  rw [memory_of_tables hkernel₁] at he
  rw [hbuild.extends_.memory_stable hprep.stable]
  exact ⟨he, hp, hh⟩

/-- **The outcomes of `vmm_prepare_address_space`** once it has a source to copy. -/
theorem vmmPrepareAddressSpace_cases (h : v.paging.Inv ∅)
    (hkernel : v.paging.tables v.kernelPml4 = some kt) (hlevel : kt.level = vmmLevelPml4)
    (howner : kt.owner = v.kernelPml4) (hsource : v.paging.Stable (v.cr3 &&& addressMask)) :
    (∃ code s', vmmPrepareAddressSpace v = (code, { v with paging := s' }) ∧ s'.Inv ∅ ∧
        v.paging.Same s') ∨
      ∃ s' cloned, vmmPrepareAddressSpace v =
          (0, { v with paging := s', lastClonedPml4 := cloned }) ∧
        s'.Inv ∅ ∧ v.paging.Frame s' ∧ v.paging.KeepsRecords s' := by
  rcases vmmPrepareAddressSpace_stages h hkernel hsource with
    ⟨code, s', heq, hinv, hsame, -⟩ | ⟨s₁, cloned, roots, s₂, hprep, heq⟩
  · exact .inl ⟨code, s', heq, hinv, hsame⟩
  · obtain ⟨hinv, hframe, hkeeps⟩ := hprep.publish hkernel hlevel howner
    refine .inr ⟨_, cloned, heq, hinv, ?_, fun {q t} hq => ?_⟩
    · exact (hprep.extends_.frame hprep.inv.aligned).trans
        ((hprep.building.extends_.frame hprep.building.inv.aligned).trans hframe)
    · exact hkeeps (hprep.building.extends_.kept (hprep.extends_.kept hq))

end Batos
