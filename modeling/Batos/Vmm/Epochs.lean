import Batos.Vmm.Active

/-!
# Epochs

Before `vmm_destroy_address_space` takes a tree apart it checks it, and stamps every record it
meets with the number of the check.  A record that has the stamp already is a table met twice.
The stamps are left in place: a released slot keeps its stamp, and passes it on to the next table
that is registered there.  So it has to be excluded that a check takes an old stamp for its own.

All stamps are at most the number of the last check (`Paging.Dated`), since the number only
grows, and when it wraps around all stamps are erased.  This is an invariant of every run of the
VMM, whatever becomes of the tables.  With it the check is complete, not only sound: the
destruction of a root whose tables form a tree succeeds (`vmmDestroyAddressSpace_succeeds`).
-/

namespace Batos

open List
open PageTableRecord (inUse level ownerPml4 physicalAddress)

variable {p stamp : Word} {level : ℕ} {recur : Paging → Word → Option Word × Paging} {v : Vmm}

/-! ## Stamps -/

/-- No record has a stamp from a later epoch. -/
def Paging.Dated (s : Paging) (epoch : Word) : Prop := ∀ r ∈ s.records, r.validationEpoch ≤ epoch

namespace Paging.Dated

variable {s s' : Paging} {epoch : Word}

/-- The stamps are in the records. -/
theorem congr (h : s.Dated epoch) (hrecords : s'.records = s.records) : s'.Dated epoch := by
  intro r hr
  rw [hrecords] at hr
  exact h r hr

/-- Amending a record, with the stamp it has or one that is due. -/
theorem amend (h : s.Dated epoch) (p : Word) {f : PageTableRecord → PageTableRecord}
    (hf : ∀ r, r.validationEpoch ≤ epoch → (f r).validationEpoch ≤ epoch) :
    (s.amend p f).Dated epoch := by
  intro r hr
  change r ∈ SlotRegistry.amend inUse physicalAddress p f s.records at hr
  rcases SlotRegistry.amend_shape inUse physicalAddress p f s.records with
    ⟨-, heq⟩ | ⟨pre, a, post, hsplit, -, -, -, -, heq⟩
  · rw [heq] at hr
    exact h r hr
  · rw [heq, mem_append, mem_cons] at hr
    have hmem : ∀ r', r' ∈ pre ∨ r' = a ∨ r' ∈ post → r' ∈ s.records := by
      intro r' hr'
      rw [hsplit, mem_append, mem_cons]
      exact hr'
    rcases hr with hpre | rfl | hpost
    · exact h r (hmem r (.inl hpre))
    · exact hf a (h a (hmem a (.inr (.inl rfl))))
    · exact h r (hmem r (.inr (.inr hpost)))

/-- A new record takes over the stamp of its slot. -/
theorem register (h : s.Dated epoch) {owner : Word}
    (heq : registerPageTable s p level owner = some s') : s'.Dated epoch := by
  unfold registerPageTable at heq
  split_ifs at heq
  obtain ⟨records, hclaim, rfl⟩ := Option.map_eq_some_iff.mp heq
  intro r hr
  obtain ⟨pre, a, post, rfl, hslots⟩ := SlotRegistry.claim_shape hclaim
  rcases mem_append.mp hr with hpre | hr
  · refine h r ?_
    rcases hslots with ⟨hsplit, -⟩ | ⟨hsplit, -⟩
    · rw [hsplit]
      exact mem_append_left _ hpre
    · rw [hsplit]
      exact hpre
  · rcases mem_cons.mp hr with rfl | hpost
    · -- a slot that was used before keeps its stamp, a new one has none
      rcases hslots with ⟨hsplit, -⟩ | ⟨-, -, rfl⟩
      · refine h a ?_
        rw [hsplit]
        exact mem_append_right _ mem_cons_self
      · exact Nat.zero_le epoch.toNat
    · rcases hslots with ⟨hsplit, -⟩ | ⟨-, rfl, -⟩
      · refine h r ?_
        rw [hsplit]
        exact mem_append_right _ (mem_cons_of_mem a hpost)
      · exact absurd hpost not_mem_nil

theorem allocatePageTable (h : s.Dated epoch) (level : ℕ) (owner : Word) :
    (allocatePageTable s level owner).2.Dated epoch := by
  unfold Batos.allocatePageTable
  dsimp only
  by_cases hzero : (pmmAllocFrame s.pmm).1 = 0
  · rw [if_pos hzero]
    exact h
  · rw [if_neg hzero]
    have hzeroed : (zeroPage { s with pmm := (pmmAllocFrame s.pmm).2 }
      (pmmAllocFrame s.pmm).1).Dated epoch := h
    cases hregister : registerPageTable (zeroPage { s with pmm := (pmmAllocFrame s.pmm).2 }
        (pmmAllocFrame s.pmm).1) (pmmAllocFrame s.pmm).1 level
        (if level = vmmLevelPml4 ∧ owner = 0 then (pmmAllocFrame s.pmm).1 else owner) with
    | none => exact hzeroed
    | some s' => exact hzeroed.register hregister

/-- Dropping a record drops its stamp. -/
theorem releasePageTable (h : s.Dated epoch) (p : Word) : (releasePageTable s p).Dated epoch := by
  unfold Batos.releasePageTable
  cases findPageTableRecord s p with
  | none => exact h
  | some record => exact h.amend p fun _ hr => hr

/-- A child table may be a new record. -/
theorem getOrCreateTable (h : s.Dated epoch) (parent : Word) (index : Fin 512) (flags : Word)
    (level : ℕ) (owner : Word) :
    (getOrCreateTable s parent index flags level owner).2.Dated epoch := by
  unfold Batos.getOrCreateTable
  split_ifs
  · exact h
  · have halloc := h.allocatePageTable level owner
    cases hresult : Batos.allocatePageTable s level owner with
    | mk child s' =>
        rw [hresult] at halloc
        cases child with
        | none => exact halloc
        | some c => exact halloc

theorem rollbackIf (h : s.Dated epoch) (created : Bool) (parent : Word)
    (index : Fin 512) (c : Word) :
    (rollbackIf created s parent index c).Dated epoch := by
  unfold Batos.rollbackIf rollbackPageTable
  split_ifs
  · exact h
  · exact h
  · exact h
  · exact Dated.releasePageTable (s := s.write parent index 0) h c
  · exact h

/-- `vmm_map_page` stamps nothing, and no rollback does. -/
theorem vmmMapPage (h : s.Dated epoch) (pml4 va pa flags : Word) :
    (vmmMapPage s pml4 va pa flags).2.Dated epoch :=
  vmmMapPage_rule (P := (·.Dated epoch)) (N := fun _ => True) va pa h
    (fun _ parent index level _ hs =>
      ⟨hs.getOrCreateTable parent index flags level pml4, fun _ _ => trivial⟩)
    (fun _ created parent index c _ hs => hs.rollbackIf created parent index c) fun _ _ _ _ hs => hs

/-- A loop over the entries of a table. -/
theorem foldl {step : Paging → Fin 512 → Paging}
    (hstep : ∀ (s : Paging) (index : Fin 512), s.Dated epoch → (step s index).Dated epoch)
    (indices : List (Fin 512)) (h : s.Dated epoch) : (indices.foldl step s).Dated epoch := by
  induction indices generalizing s with
  | nil => exact h
  | cons index indices ih => exact ih (hstep s index h)

/-- `vmm_unmap_page` changes no record. -/
theorem vmmUnmapPage (h : s.Dated epoch) (pml4 va : Word) :
    (vmmUnmapPage s pml4 va).2.Dated epoch := by
  refine h.congr ?_
  unfold Batos.vmmUnmapPage
  dsimp only
  repeat' split
  all_goals rfl

theorem mapKernelSections (pml4 virtualBase physicalBase imageEnd : Word)
    (sections : List (Word × Word × Word)) (h : s.Dated epoch) :
    (mapKernelSections pml4 virtualBase physicalBase imageEnd sections s).2.Dated epoch :=
  mapKernelSections_induction (P := fun s => s.Dated epoch)
    (fun _ va pa flags hs => hs.vmmMapPage pml4 va pa flags) virtualBase physicalBase
    imageEnd sections h

/-- Giving back a whole tree. -/
theorem releaseTree (skipZero : Bool) (level : ℕ) (p : Word) (h : s.Dated epoch) :
    (releaseTree skipZero level s p).Dated epoch := by
  induction level generalizing s p with
  | zero =>
      rw [Batos.releaseTree]
      split
      · exact h
      · exact h.releasePageTable p
  | succ level ih =>
      have hentry : ∀ (s : Paging) (index : Fin 512), s.Dated epoch →
          (releaseEntry (Batos.releaseTree skipZero level) p s index).Dated epoch := by
        intro s index h
        unfold releaseEntry
        dsimp only
        split
        · exact h
        · split
          · exact h
          · exact ih _ (show (s.write p index 0).Dated epoch from h)
      rw [Batos.releaseTree]
      split
      · exact h
      · exact (foldl hentry tableIndices h).releasePageTable p

/-! ### Copies -/

/-- A recursive call of a copy that leaves no stamp. -/
def Copies (epoch : Word) (recur : Paging → Word → Option Word × Paging) : Prop :=
  ∀ (s : Paging) (source : Word), s.Dated epoch → (recur s source).2.Dated epoch

/-- The copying loop is as harmless as the calls it makes. -/
theorem copyEntries (hrecur : Copies epoch recur) (source destination : Word)
    (indices : List (Fin 512)) (h : s.Dated epoch) :
    (copyEntries level recur source destination indices s).2.Dated epoch := by
  induction indices generalizing s with
  | nil => exact h
  | cons index indices ih =>
      rw [Batos.copyEntries]
      split
      · exact ih h
      · split
        · exact ih h
        · have hcall := hrecur s (entryAddress (s.memory source index)) h
          cases hresult : recur s (entryAddress (s.memory source index)) with
          | mk child s' =>
              rw [hresult] at hcall
              cases child with
              | none => exact hcall
              | some c => exact ih (s := s'.write destination index _) hcall

/-- Keeping or discarding a copy stamps nothing. -/
theorem finishCopy (level : ℕ) (destination : Word) {result : Bool × Paging}
    (h : result.2.Dated epoch) : (finishCopy level destination result).2.Dated epoch := by
  obtain ⟨ok, s⟩ := result
  cases ok with
  | true => exact h
  | false => exact releaseTree true level destination h

/-- One level of `clone_page_table` writes an owner into a record, and no stamp. -/
theorem cloneTable {recur : Word → Paging → Word → Option Word × Paging}
    (hrecur : ∀ owner, Copies epoch (recur owner)) (owner : Word) :
    Copies epoch fun s source => cloneTable level recur s source owner := by
  intro s source h
  show (Batos.cloneTable level recur s source owner).2.Dated epoch
  unfold Batos.cloneTable
  by_cases hsource : source = 0
  · rw [if_pos hsource]
    exact h
  rw [if_neg hsource]
  by_cases hlevel : vmmLevelPml4 < level
  · rw [if_pos hlevel]
    exact h
  · rw [if_neg hlevel]
    have halloc := h.allocatePageTable level owner
    cases hresult : Batos.allocatePageTable s level owner with
    | mk destination s' =>
        rw [hresult] at halloc
        cases destination with
        | none => exact halloc
        | some d =>
            dsimp only at halloc ⊢
            cases findPageTableRecord s' d with
            | none => exact releaseTree true level d halloc
            | some record =>
                exact finishCopy level d (copyEntries (hrecur _) source d tableIndices
                  (halloc.amend d fun _ hr => hr))

/-- No level of `clone_page_table` stamps anything. -/
theorem clonePageTable (level : ℕ) (owner : Word) : Copies epoch (clonePageTable level owner) := by
  induction level generalizing owner with
  | zero => exact cloneTable (fun _ _ _ h => h) owner
  | succ level ih => exact cloneTable ih owner

theorem copyTable (hrecur : Copies epoch recur) (owner : Word) :
    Copies epoch fun s source => copyTable level recur s source owner := by
  intro s source h
  show (Batos.copyTable level recur s source owner).2.Dated epoch
  unfold Batos.copyTable
  split
  · exact h
  · split
    · exact h
    · have halloc := h.allocatePageTable level owner
      cases hresult : Batos.allocatePageTable s level owner with
      | mk destination s' =>
          rw [hresult] at halloc
          cases destination with
          | none => exact halloc
          | some d => exact finishCopy level d (copyEntries hrecur source d tableIndices halloc)

/-- Nor does any level of `copy_page_table_subtree`. -/
theorem copyPageTableSubtree (level : ℕ) (owner : Word) :
    Copies epoch (copyPageTableSubtree level owner) := by
  induction level with
  | zero => exact copyTable (fun _ _ h => h) owner
  | succ level ih => exact copyTable ih owner

theorem discardRoots (roots : Fin 512 → Word) (cloned : Word) (h : s.Dated epoch) :
    (discardRoots roots cloned s).Dated epoch := by
  refine releaseTree true vmmLevelPml4 cloned (foldl (fun s index h => ?_) tableIndices h)
  split
  · exact h
  · exact releaseTree true vmmLevelPdpt (roots index) h

/-- The loop of a preparation copies and discards. -/
theorem buildRoots (kernel source cloned : Word) (indices : List (Fin 512)) (roots : Fin 512 → Word)
    (h : s.Dated epoch) : (buildRoots kernel source cloned indices roots s).2.Dated epoch := by
  induction indices generalizing roots s with
  | nil => exact h
  | cons index indices ih =>
      rw [Batos.buildRoots]
      dsimp only
      split
      · exact ih roots h
      · split
        · exact ih roots h
        · split
          · exact discardRoots roots cloned h
          · have hcopy := copyPageTableSubtree vmmLevelPdpt kernel s
              (entryAddress (s.memory source index)) h
            cases hresult : Batos.copyPageTableSubtree vmmLevelPdpt kernel s
                (entryAddress (s.memory source index)) with
            | mk child s' =>
                rw [hresult] at hcopy
                cases child with
                | none => exact discardRoots roots cloned hcopy
                | some c => exact ih _ hcopy

/-- Publishing the copies is storing entries. -/
theorem publishRoots (kernel source : Word) (roots : Fin 512 → Word) (h : s.Dated epoch) :
    (publishRoots kernel source roots s).Dated epoch := by
  refine foldl (fun s index h => ?_) tableIndices h
  split
  · exact h
  · exact h

/-! ### The check -/

/-- The loop of the check stamps what its calls stamp. -/
theorem validateEntries {recur : Paging → Word → Bool × Paging}
    (hrecur : ∀ (s : Paging) (p : Word), s.Dated epoch → (recur s p).2.Dated epoch) (table : Word)
    (indices : List (Fin 512)) (h : s.Dated epoch) :
    (validateEntries level recur table indices s).2.Dated epoch := by
  induction indices generalizing s with
  | nil => exact h
  | cons index indices ih =>
      rw [Batos.validateEntries]
      split
      · exact ih h
      · split
        · split
          · exact h
          · exact ih h
        · have hcall := hrecur s (entryAddress (s.memory table index)) h
          cases hresult : recur s (entryAddress (s.memory table index)) with
          | mk ok s' =>
              rw [hresult] at hcall
              cases ok with
              | false => exact hcall
              | true => exact ih hcall

/-- One level of the check stamps its table. -/
theorem validateTable {recur : Paging → Word → Bool × Paging}
    (hrecur : ∀ (s : Paging) (p : Word), s.Dated epoch → (recur s p).2.Dated epoch)
    (hstamp : stamp ≤ epoch) (p owner : Word) (h : s.Dated epoch) :
    (validateTable level recur s p owner stamp).2.Dated epoch := by
  unfold Batos.validateTable
  split
  · exact h
  · split
    · exact h
    · split
      · exact h
      · split
        · exact h
        · have hstamped : (s.amend p fun record => { record with validationEpoch := stamp }).Dated
            epoch :=
            h.amend p fun _ _ => hstamp
          dsimp only
          split
          · exact hstamped
          · exact validateEntries hrecur p tableIndices hstamped

/-- **The check stamps the tables with its own epoch.** -/
theorem validateAddressSpaceTree (hstamp : stamp ≤ epoch) (level : ℕ) (p owner : Word)
    (h : s.Dated epoch) : (validateAddressSpaceTree level s p owner stamp).2.Dated epoch := by
  induction level generalizing s p with
  | zero => exact validateTable (fun _ _ h => h) hstamp p owner h
  | succ level ih => exact validateTable (fun _ p h => ih p h) hstamp p owner h

end Paging.Dated

/-! ## Epochs -/

/-- The stamps of a VMM are at most its epoch. -/
def Vmm.Dated (v : Vmm) : Prop := v.paging.Dated v.validationEpoch

/-- **A new epoch is new**: no record has its stamp. -/
theorem Vmm.Dated.nextEpoch (h : v.Dated) :
    (nextEpoch v).Dated ∧
      ∀ r ∈ (nextEpoch v).paging.records, r.validationEpoch ≠ (nextEpoch v).validationEpoch := by
  unfold Batos.nextEpoch
  dsimp only
  by_cases hwrap : v.validationEpoch + 1 = 0
  · rw [if_pos hwrap]
    have hzero : ∀ r ∈ v.paging.records.map fun record : PageTableRecord =>
        { record with validationEpoch := 0 }, r.validationEpoch = 0 := by
      intro r hr
      obtain ⟨record, -, rfl⟩ := mem_map.mp hr
      rfl
    refine ⟨fun r hr => ?_, fun r hr => ?_⟩
    · rw [hzero r hr]
      exact Nat.zero_le _
    · rw [hzero r hr]
      exact show (0 : Word) ≠ 1 by decide
  · rw [if_neg hwrap]
    have hnext : (v.validationEpoch + 1).toNat = v.validationEpoch.toNat + 1 := by
      have hlt := v.validationEpoch.isLt
      have hne : (v.validationEpoch + 1).toNat ≠ 0 := fun hzero =>
        hwrap (BitVec.eq_of_toNat_eq hzero)
      rw [BitVec.toNat_add, show (1 : Word).toNat = 1 from rfl] at hne ⊢
      omega
    refine ⟨fun r hr => ?_, fun r hr heq => ?_⟩
    · have hle : r.validationEpoch.toNat ≤ v.validationEpoch.toNat := h r hr
      show r.validationEpoch.toNat ≤ (v.validationEpoch + 1).toNat
      omega
    · have hle : r.validationEpoch.toNat ≤ v.validationEpoch.toNat := h r hr
      have heq : r.validationEpoch = v.validationEpoch + 1 := heq
      rw [heq] at hle
      omega

namespace Vmm.Dated

variable {v : Vmm}

/-- A new space keeps the epoch. -/
theorem createAddressSpace (h : v.Dated) : (vmmCreateAddressSpace v).2.Dated := by
  have halloc : (allocatePageTable v.paging vmmLevelPml4 0).2.Dated v.validationEpoch :=
    Paging.Dated.allocatePageTable h vmmLevelPml4 0
  rcases hresult : allocatePageTable v.paging vmmLevelPml4 0 with ⟨_ | root, s⟩
  · rw [hresult] at halloc
    rw [vmmCreateAddressSpace, hresult]
    exact halloc
  rw [hresult] at halloc
  rcases vmmCreateAddressSpace_of_some hresult with heq | ⟨spaces, -, heq⟩
  · rw [heq]
    exact halloc.releasePageTable root
  · rw [heq]
    exact halloc

/-- A destruction starts a new epoch, stamps with it, and drops records. -/
theorem destroyAddressSpace (h : v.Dated) (root : Word) :
    (vmmDestroyAddressSpace v root).2.Dated := by
  unfold vmmDestroyAddressSpace
  split
  · exact h
  · split
    · exact h
    · split
      · exact h
      · split
        · exact h
        · split
          · exact h
          · have hcheck := Paging.Dated.validateAddressSpaceTree (BitVec.le_refl _)
              vmmLevelPml4 root root h.nextEpoch.1
            dsimp only
            cases hresult : validateAddressSpaceTree vmmLevelPml4
              (Batos.nextEpoch v).paging root root
                (Batos.nextEpoch v).validationEpoch with
            | mk ok s =>
                rw [hresult] at hcheck
                cases ok with
                | false => exact hcheck
                | true =>
                    have hreleased := Paging.Dated.releaseTree false vmmLevelPml4 root hcheck
                    dsimp only
                    split
                    · exact hreleased
                    · exact hreleased

theorem createKernelAddressSpace (h : v.Dated) (image : KernelImage) :
    (vmmCreateKernelAddressSpace image v).2.Dated := by
  refine vmmCreateKernelAddressSpace_rule h h.createAddressSpace fun root v₁ hcall => ?_
  have hcreate := h.createAddressSpace
  rw [hcall] at hcreate
  have hmapped : Vmm.Dated { v₁ with paging := (image.map root v₁.paging).2 } :=
    Paging.Dated.mapKernelSections root _ _ _ _ hcreate
  exact ⟨hmapped, hmapped.destroyAddressSpace root⟩

theorem activateAddressSpace (h : v.Dated) (root : Word) :
    (vmmActivateAddressSpace v root).2.Dated := by
  have hsame : (vmmActivateAddressSpace v root).2.paging = v.paging ∧
      (vmmActivateAddressSpace v root).2.validationEpoch = v.validationEpoch := by
    unfold vmmActivateAddressSpace
    dsimp only
    repeat' split
    all_goals exact ⟨rfl, rfl⟩
  unfold Vmm.Dated
  rw [hsame.1, hsame.2]
  exact h

/-- A preparation keeps the epoch. -/
theorem prepareAddressSpace (h : v.Dated) : (vmmPrepareAddressSpace v).2.Dated := by
  unfold vmmPrepareAddressSpace
  dsimp only
  split
  · exact h
  · split
    · exact h
    · split
      · exact h
      · have hclone := Paging.Dated.clonePageTable vmmLevelPml4 0 v.paging (v.cr3 &&& addressMask) h
        cases hcloned : clonePageTable vmmLevelPml4 0 v.paging (v.cr3 &&& addressMask) with
        | mk cloned s₁ =>
            rw [hcloned] at hclone
            cases cloned with
            | none => exact hclone
            | some cloned =>
                have hbuild := hclone.buildRoots v.kernelPml4 (v.cr3 &&& addressMask)
                  cloned tableIndices fun _ => 0
                dsimp only at hbuild ⊢
                cases hbuilt : buildRoots v.kernelPml4 (v.cr3 &&& addressMask) cloned tableIndices
                    (fun _ => 0) s₁ with
                | mk roots s₂ =>
                    rw [hbuilt] at hbuild
                    cases roots with
                    | none => exact hbuild
                    | some roots =>
                        have hs₂ : s₂.Dated v.validationEpoch := hbuild
                        unfold Vmm.Dated
                        dsimp only
                        exact hs₂.publishRoots v.kernelPml4 (v.cr3 &&& addressMask) roots

end Vmm.Dated

/-- **One call keeps the stamps in order**, whatever the call and its arguments. -/
theorem Vmm.Dated.step {m : Mm} (h : m.vmm.Dated) (image : KernelImage) (op : MmOp) :
    (m.step image op).vmm.Dated := by
  cases op with
  | createAddressSpace => exact h.createAddressSpace
  | createKernelAddressSpace => exact h.createKernelAddressSpace image
  | mapPage pml4 va pa flags => exact Paging.Dated.vmmMapPage h pml4 va pa flags
  | unmapPage pml4 va => exact Paging.Dated.vmmUnmapPage h pml4 va
  | activate pml4 => exact h.activateAddressSpace pml4
  | prepare => exact h.prepareAddressSpace
  | destroy pml4 => exact h.destroyAddressSpace pml4
  | allocFrame => exact Paging.Dated.congr h rfl
  | freeFrame address => exact h
  | store address index value => exact h

/-- **The stamps are in order in every run.** -/
theorem Vmm.Dated.of_reachable {image : KernelImage} {m m' : Mm} (h : m.vmm.Dated)
    (hm : (vmmSystem image).Reachable m m') : m'.vmm.Dated :=
  hm.induction (fun m => m.vmm.Dated) (fun _ op h _ => Vmm.Dated.step h image op) h

/-! ## The check is complete -/

/-- What the check looks for: tables met once each, with records of the right level and owner
that do not have the stamp yet. -/
structure Paging.Unmarked (owner epoch : Word) (nodes : List (ℕ × Word)) (s : Paging) : Prop where
  distinct : (nodes.map Prod.snd).Nodup
  registered : ∀ l q, (l, q) ∈ nodes → ∃ r, findPageTableRecord s q = some r ∧ r.level = l ∧
    r.ownerPml4 = owner ∧ r.validationEpoch ≠ epoch

namespace Paging.Unmarked

variable {owner epoch : Word} {nodes nodes' : List (ℕ × Word)} {s s' : Paging}

/-- What holds of more tables holds of these. -/
theorem left (h : Unmarked owner epoch (nodes ++ nodes') s) : Unmarked owner epoch nodes s where
  distinct := by
    have hdistinct := h.distinct
    rw [map_append] at hdistinct
    exact hdistinct.of_append_left
  registered l q hq := h.registered l q (mem_append_left _ hq)

/-- What comes later is still unmarked when what comes first has been marked. -/
theorem right (h : Unmarked owner epoch (nodes ++ nodes') s)
    (hmarks : Marks owner epoch nodes s s') :
    Unmarked owner epoch nodes' s' := by
  have hdistinct := h.distinct
  rw [map_append, nodup_append] at hdistinct
  obtain ⟨-, hright, hdisjoint⟩ := hdistinct
  refine ⟨hright, fun l q hq => ?_⟩
  have hother : q ∉ nodes.map Prod.snd := fun hmem =>
    hdisjoint q hmem q (mem_map_of_mem (f := Prod.snd) hq) rfl
  rw [hmarks.others q hother]
  exact h.registered l q (mem_append_right _ hq)

end Paging.Unmarked

section Complete

variable {owner epoch : Word} {level : ℕ} {recur : Paging → Word → Bool × Paging}

/-- The loop over the entries of a table. -/
theorem validateEntries_complete (hspec : ValidateSpec level owner epoch recur)
    (hrecur : ∀ s p, Paging.Unmarked owner epoch (treeNodes s.memory level p) s →
      (recur s p).1 = true)
    (p : Word) (indices : List (Fin 512)) (s : Paging)
    (h : Paging.Unmarked owner epoch (subNodes s.memory level p indices) s)
    (hpointers : level + 1 = vmmLevelPml4 → ∀ index, isPresent (s.memory p index) = true →
      isHuge (s.memory p index) = false) :
    (validateEntries (level + 1) recur p indices s).1 = true := by
  induction indices generalizing s with
  | nil => rfl
  | cons index indices ih =>
      rw [validateEntries]
      rw [subNodes_cons] at h
      cases hpresent : isPresent (s.memory p index) with
      | false =>
          rw [show pointedTable (s.memory p index) = none by simp [pointedTable, hpresent]] at h
          rw [if_pos rfl]
          exact ih s h hpointers
      | true =>
          rw [if_neg (by simp)]
          cases hhuge : isHuge (s.memory p index) with
          | true =>
              rw [show pointedTable (s.memory p index) = none by simp [pointedTable, hhuge]] at h
              rw [if_pos rfl, if_neg fun hl => ?_]
              · exact ih s h hpointers
              · rw [hpointers hl index hpresent] at hhuge
                cases hhuge
          | false =>
              rw [show pointedTable (s.memory p index) = some (entryAddress (s.memory p index)) by
                simp [pointedTable, hpresent, hhuge]] at h
              rw [if_neg (by simp)]
              have htrue := hrecur s _ h.left
              obtain ⟨hstamps, hmarks⟩ := hspec s (entryAddress (s.memory p index))
              have hrest := h.right (hmarks htrue)
              cases hcall : recur s (entryAddress (s.memory p index)) with
              | mk ok s₁ =>
                  rw [hcall] at htrue hstamps hrest
                  obtain rfl : ok = true := htrue
                  refine ih s₁ ?_ ?_
                  · rw [hstamps.memory]
                    exact hrest
                  · rw [hstamps.memory]
                    exact hpointers

/-- One level of the check. -/
theorem validateTable_complete {s : Paging} {r : PageTableRecord}
    (hr : findPageTableRecord s p = some r) (hlevel : r.level = level)
    (howner : r.ownerPml4 = owner) (hfresh : r.validationEpoch ≠ epoch)
    (hbelow : level ≠ vmmLevelPt → (validateEntries level recur p tableIndices
      (s.amend p fun record => { record with validationEpoch := epoch })).1 = true) :
    (validateTable level recur s p owner epoch).1 = true := by
  have hne : p ≠ 0 := by
    rintro rfl
    cases hr
  have hlive : r.inUse = true := by
    rw [findPageTableRecord_of_ne_zero hne] at hr
    exact (SlotRegistry.find_spec hr).2.1
  unfold validateTable
  rw [if_neg hne, hr]
  dsimp only
  rw [if_neg (by rw [hlive]; simp [hlevel, howner]), if_neg hfresh]
  by_cases hleaf : level = vmmLevelPt
  · rw [if_pos hleaf]
  · rw [if_neg hleaf]
    exact hbelow hleaf

/-- **The check succeeds on every tree** that does not have its stamp. -/
theorem validateAddressSpaceTree_complete (level : ℕ) (hle : level ≤ vmmLevelPml4)
    (s : Paging) (p : Word) (h : Paging.Unmarked owner epoch (treeNodes s.memory level p) s)
    (hpointers : level = vmmLevelPml4 → ∀ index, isPresent (s.memory p index) = true →
      isHuge (s.memory p index) = false) :
    (validateAddressSpaceTree level s p owner epoch).1 = true := by
  obtain ⟨r, hr, hlevel, howner, hfresh⟩ :=
    h.registered level p (Unfolding.self_mem (tableKids s.memory tableIndices) level p)
  induction level generalizing s p r with
  | zero => exact validateTable_complete hr hlevel howner hfresh fun hne => absurd rfl hne
  | succ level ih =>
      refine validateTable_complete hr hlevel howner hfresh fun _ => ?_
      have hsplit : Paging.Unmarked owner epoch
          ([(level + 1, p)] ++ subNodes s.memory level p tableIndices) s := by
        rw [singleton_append, ← treeNodes_succ]
        exact h
      refine validateEntries_complete (validateAddressSpaceTree_spec level owner epoch)
        ?_ p tableIndices (s.amend p fun record => { record with validationEpoch := epoch })
        (hsplit.right (.single hr hlevel howner hfresh)) hpointers
      intro s' p' h'
      obtain ⟨r', hr', hl', ho', hf'⟩ :=
        h'.registered level p' (Unfolding.self_mem (tableKids s'.memory tableIndices) level p')
      exact ih (Nat.le_of_succ_le hle) s' p' h' (fun hl => absurd (hl ▸ hle) (by decide))
        r' hr' hl' ho' hf'

end Complete

/-! ## Destruction -/

/-- A tree of tables is unmarked in a new epoch. -/
theorem TableTree.unmarked (h : v.Dated) {root : Word} (htree : TableTree v.paging root) :
    Paging.Unmarked root (nextEpoch v).validationEpoch
      (treeNodes (nextEpoch v).paging.memory vmmLevelPml4 root) (nextEpoch v).paging := by
  have hstamps := restamped_nextEpoch v
  rw [hstamps.memory]
  refine ⟨htree.distinct, fun l q hq => ?_⟩
  obtain ⟨r, hr, -, hl, ho⟩ := htree.registered l q hq
  have hfind := hstamps.find q
  rw [hr] at hfind
  obtain ⟨r', hr', hunstamped⟩ := Option.map_eq_some_iff.mp hfind
  refine ⟨r', hr', (congrArg level hunstamped).trans hl,
    (congrArg ownerPml4 hunstamped).trans ho, h.nextEpoch.2 r' ?_⟩
  have hne : q ≠ 0 := by
    rintro rfl
    cases hr'
  rw [findPageTableRecord_of_ne_zero hne] at hr'
  exact (SlotRegistry.find_spec hr').1

/-- **When `vmm_destroy_address_space` succeeds**: on every recorded root that is not active and
whose tables form a tree. -/
theorem vmmDestroyAddressSpace_succeeds_iff (h : v.Dated) (root : Word) :
    (vmmDestroyAddressSpace v root).1 = 0 ↔
      root ≠ v.activeAddressSpacePml4 ∧
        (∃ record, findAddressSpaceRecord v root = some record ∧ record.state ≠ .active) ∧
        TableTree v.paging root := by
  constructor
  · intro hok
    rcases destroy_outcome v root with
      ⟨paging, epoch, heq, -⟩ | ⟨record, -, -, -, -, hactive, hfind, hstate, htree, -⟩
    · rw [heq] at hok
      cases hok
    · exact ⟨hactive, ⟨record, hfind, hstate⟩, htree⟩
  · rintro ⟨hactive, ⟨record, hfind, hstate⟩, htree⟩
    have hne : root ≠ 0 := by
      rintro rfl
      cases hfind
    have hroot : vmmVerifyPageTableRoot v.paging root = true := by
      obtain ⟨r, hr, -, hl, ho⟩ := htree.registered vmmLevelPml4 root
        (Unfolding.self_mem (tableKids v.paging.memory tableIndices) vmmLevelPml4 root)
      exact vmmVerifyPageTableRoot_iff.mpr ⟨⟨r.level, r.ownerPml4, v.paging.memory root⟩,
        tables_eq_some.mpr ⟨r, hr, rfl, rfl, rfl⟩, hl, ho⟩
    have hcheck := validateAddressSpaceTree_complete vmmLevelPml4 le_rfl (nextEpoch v).paging root
      (htree.unmarked h) fun _ => by
        rw [(restamped_nextEpoch v).memory]
        exact htree.pointers
    unfold vmmDestroyAddressSpace
    rw [if_neg hne, if_neg hactive, hfind]
    dsimp only
    rw [if_neg hstate, if_neg (by rw [hroot]; decide)]
    cases hresult : validateAddressSpaceTree vmmLevelPml4 (nextEpoch v).paging root root
        (nextEpoch v).validationEpoch with
    | mk ok s =>
        rw [hresult] at hcheck
        obtain rfl : ok = true := hcheck
        rfl

/-! ## The tables of a root form a tree -/

section Tree

variable {s : Paging} {loose : Set Word} {p : Word} {t : Table} {level : ℕ}

/-- The children of a table, as the check finds them. -/
theorem mem_tableKids {memory : Word → Fin 512 → Word} {indices : List (Fin 512)} {c : Word} :
    c ∈ tableKids memory indices p ↔ ∃ index ∈ indices, pointedTable (memory p index) = some c :=
  mem_filterMap

/-- The nodes below a table are the tables its paths lead to, each at the level it has. -/
theorem Paging.Inv.descend_of_mem (h : s.Inv loose) (ht : s.tables p = some t)
    (hl : t.level = level) {l : ℕ} {q : Word} (hq : (l, q) ∈ treeNodes s.memory level p) :
    ∃ path, path.length + l = level ∧ s.tables.forest.descend path p = some q ∧
      ∃ u, s.tables q = some u ∧ u.level = l ∧ u.owner = t.owner := by
  induction level generalizing p t with
  | zero =>
      obtain ⟨rfl, rfl⟩ := Prod.mk.inj (mem_singleton.mp hq)
      exact ⟨[], rfl, rfl, t, ht, hl, rfl⟩
  | succ level ih =>
      rcases Unfolding.mem_succ.mp hq with ⟨rfl, rfl⟩ | ⟨c, hc, hq⟩
      · exact ⟨[], Nat.zero_add _, rfl, t, ht, hl, rfl⟩
      · obtain ⟨index, -, hpointed⟩ := mem_tableKids.mp hc
        have hedge : s.tables.forest.edge p index = some c := by
          rw [Tables.forest_edge ht, hl, entryChild_succ, ← memory_of_tables ht]
          exact hpointed
        obtain ⟨u, hu, hul, huo⟩ := Tables.child_of_wf h.wf ht (by
          rw [Tables.forest_edge ht] at hedge
          exact hedge)
        obtain ⟨path, hlen, hdesc, w, hw, hwl, hwo⟩ := ih hu (by omega) hq
        refine ⟨index :: path, by rw [length_cons]; omega, ?_, w, hw, hwl, hwo.trans huo⟩
        exact Option.bind_eq_some_iff.mpr ⟨c, hedge, hdesc⟩

/-- No table is met twice below a table. -/
theorem Paging.Inv.nodup_treeNodes (h : s.Inv loose) (ht : s.tables p = some t)
    (hl : t.level = level) :
    ((treeNodes s.memory level p).map Prod.snd).Nodup := by
  induction level generalizing p t with
  | zero => exact nodup_singleton p
  | succ level ih =>
      have hedge : ∀ {index c}, pointedTable (s.memory p index) = some c →
          s.tables.forest.edge p index = some c ∧ ∃ u, s.tables c = some u ∧ u.level = level := by
        intro index c hpointed
        have hedge : s.tables.forest.edge p index = some c := by
          rw [Tables.forest_edge ht, hl, entryChild_succ, ← memory_of_tables ht]
          exact hpointed
        obtain ⟨u, hu, hul, -⟩ := Tables.child_of_wf h.wf ht (by
          rw [Tables.forest_edge ht] at hedge
          exact hedge)
        exact ⟨hedge, u, hu, by omega⟩
      have hsub : ∀ indices : List (Fin 512), indices.Nodup →
          ((subNodes s.memory level p indices).map Prod.snd).Nodup := by
        intro indices hnodup
        induction indices with
        | nil => exact nodup_nil
        | cons index indices ih' =>
            obtain ⟨hindex, hnodup⟩ := nodup_cons.mp hnodup
            rw [subNodes_cons]
            cases hpointed : pointedTable (s.memory p index) with
            | none => exact ih' hnodup
            | some c =>
                obtain ⟨hc, u, hu, hul⟩ := hedge hpointed
                rw [map_append, nodup_append]
                refine ⟨ih hu hul, ih' hnodup, ?_⟩
                rintro q hq _ hq' rfl
                obtain ⟨⟨l, q⟩, hmem, rfl⟩ := mem_map.mp hq
                obtain ⟨⟨l', q'⟩, hmem', rfl⟩ := mem_map.mp hq'
                obtain ⟨c', hc', hmem'⟩ := mem_flatMap.mp hmem'
                obtain ⟨index', hindex', hpointed'⟩ := mem_tableKids.mp hc'
                obtain ⟨hedge', u', hu', hul'⟩ := hedge hpointed'
                -- the table is at the end of two paths of one length
                obtain ⟨path, hlen, hdesc, w, hw, hwl, -⟩ := h.descend_of_mem hu hul hmem
                obtain ⟨path', hlen', hdesc', w', hw', hwl', -⟩ := h.descend_of_mem hu' hul' hmem'
                obtain rfl := Option.some.inj (hw.symm.trans hw')
                obtain ⟨rfl, -⟩ := Forest.descend_injective h.wf (by omega) hdesc hdesc'
                exact hindex ((h.wf.unique hc hedge').2 ▸ hindex')
      rw [treeNodes_succ, map_cons, nodup_cons]
      refine ⟨fun hp => ?_, hsub tableIndices nodup_tableIndices⟩
      obtain ⟨⟨l, q⟩, hmem, rfl⟩ := mem_map.mp hp
      obtain ⟨c, hc, hmem⟩ := mem_flatMap.mp hmem
      obtain ⟨index, -, hpointed⟩ := mem_tableKids.mp hc
      obtain ⟨-, u, hu, hul⟩ := hedge hpointed
      obtain ⟨path, hlen, -, w, hw, hwl, -⟩ := h.descend_of_mem hu hul hmem
      obtain rfl := Option.some.inj (ht.symm.trans hw)
      omega

/-- **The tables of a root form a tree**, provided that no entry of the root is huge. -/
theorem Paging.Inv.tableTree (h : s.Inv loose) (ht : s.tables p = some t)
    (hl : t.level = vmmLevelPml4)
    (hpointers : ∀ index, isPresent (t.entries index) = true → isHuge (t.entries index) = false) :
    TableTree s p where
  distinct := h.nodup_treeNodes ht hl
  registered := by
    intro l q hq
    obtain ⟨-, -, -, u, hu, hul, huo⟩ := h.descend_of_mem ht hl hq
    obtain ⟨r, hr, hrl, hro, -⟩ := tables_eq_some.mp hu
    refine ⟨r, hr, ?_, hrl.trans hul, hro.trans (huo.trans ?_)⟩
    · have hne : q ≠ 0 := by
        rintro rfl
        cases hr
      rw [findPageTableRecord_of_ne_zero hne] at hr
      exact (SlotRegistry.find_spec hr).2.1
    · exact h.booked.roots ht hl
  pointers := by
    intro index
    rw [memory_of_tables ht]
    exact hpointers index

end Tree

end Batos
