import Batos.Vmm.Walk

/-!
# Four-KiB leaves

A walk that ends in a page-table entry has a path: three pointers of the ownership
forest.  Paths are unique in a forest, so a store into a page table changes the
lookups of the addresses with that path and no others.  `vmm_unmap_page` clears the
leaf of a mapped page and does nothing anywhere else (`vmmUnmapPage_cases`).
-/

namespace Batos

variable {T : Tables} {pml4 pt va va' : Word}

namespace Tables

/-- Three pointers make a path to a page table. -/
theorem descend_path {pdpt pd : Word} (h₃ : T.forest.edge pml4 (pml4Index va) = some pdpt)
    (h₂ : T.forest.edge pdpt (pdptIndex va) = some pd)
    (h₁ : T.forest.edge pd (pdIndex va) = some pt) :
    T.forest.descend (path vmmLevelPml4 va) pml4 = some pt := by
  change T.forest.descend [pml4Index va, pdptIndex va, pdIndex va] pml4 = some pt
  simp [Forest.descend, h₃, h₂, h₁]

theorem edges_of_path (h : T.forest.descend (path vmmLevelPml4 va) pml4 = some pt) :
    ∃ pdpt pd, T.forest.edge pml4 (pml4Index va) = some pdpt ∧
      T.forest.edge pdpt (pdptIndex va) = some pd ∧ T.forest.edge pd (pdIndex va) = some pt := by
  change T.forest.descend [pml4Index va, pdptIndex va, pdIndex va] pml4 = some pt at h
  simpa [Forest.descend, Option.bind_eq_some_iff] using h

/-- Addresses no walk tells apart. -/
def SamePath (va va' : Word) : Prop :=
  path vmmLevelPml4 va = path vmmLevelPml4 va' ∧ levelIndex 0 va = levelIndex 0 va'

instance (va va' : Word) : Decidable (SamePath va va') := inferInstanceAs (Decidable (_ ∧ _))

@[refl] theorem SamePath.refl (va : Word) : SamePath va va := ⟨rfl, rfl⟩

@[symm] theorem SamePath.symm (h : SamePath va va') : SamePath va' va :=
  ⟨h.1.symm, h.2.symm⟩

@[trans] theorem SamePath.trans {va'' : Word} (h : SamePath va va') (h' : SamePath va' va'') :
    SamePath va va'' :=
  ⟨h.1.trans h'.1, h.2.trans h'.2⟩

/-- Addresses of one page have the same path. -/
theorem samePath_of_page (h : va.toNat / 4096 = va'.toNat / 4096) :
    SamePath va va' := by
  have hindex := levelIndex_eq_of_page h
  refine ⟨?_, hindex 0⟩
  simp only [path, hindex]

/-- Canonical addresses with the same path lie in the same page. -/
theorem samePath_iff (hva : Canonical va) (hva' : Canonical va') :
    SamePath va va' ↔ va.toNat / 4096 = va'.toNat / 4096 := by
  refine ⟨?_, samePath_of_page⟩
  rintro ⟨hpath, h₀⟩
  simp only [path, List.cons.injEq] at hpath
  exact page_eq_of_indices hva hva' hpath.1 hpath.2.1 hpath.2.2.1 h₀

theorem walk_samePath (T : Tables) (owner : Word) (hleaf : levelIndex 0 va = levelIndex 0 va')
    (level : ℕ) (p : Word) (hpath : path level va = path level va') :
    T.walk owner level p va = T.walk owner level p va' := by
  induction level generalizing p with
  | zero =>
      unfold walk
      rw [hleaf]
  | succ level ih =>
      obtain ⟨hindex, hrest⟩ := List.cons.inj hpath
      unfold walk
      rw [hindex]
      simp only [fun q => ih q hrest]

theorem SamePath.lookup (h : SamePath va va') (T : Tables) (root : Word) :
    T.lookup root va = T.lookup root va' :=
  walk_samePath T root h.2 _ root h.1

variable {T : Tables} {p va owner : Word} {t : Table} {level : ℕ} {loose : Set Word}

/-- **A store into the page table of an address changes the lookups of its page**, and
no others. -/
theorem lookup_writeLeaf (hwf : T.forest.Wf vmmLevelPml4 loose) {root : Word} {r : Table}
    (hr : T root = some r) (hl : r.level = vmmLevelPml4) (ho : r.owner = root) {u : Table}
    (hpath : T.forest.descend (path vmmLevelPml4 va) root = some pt) (hu : T pt = some u)
    (hleaf : u.level = 0) (entry va' : Word) :
    (T.writeEntry pt (levelIndex 0 va) entry).lookup root va' =
      if SamePath va' va then leafOf entry else T.lookup root va' := by
  rw [lookup, walk_writeLeaf hwf hu hleaf _ _ hr hl ho]
  refine if_congr (and_congr_left fun _ => ⟨fun hpath' => ?_, fun heq => ?_⟩) rfl rfl
  · exact (Forest.descend_injective hwf (by simp) hpath' hpath).2
  · rw [heq]
    exact hpath

end Tables

/-! ## Unmapping -/

section Unmap

variable {s : Paging}

/-- The checked steps of the source along the path of an address. -/
def Paging.checkedPath (s : Paging) (owner va : Word) : ℕ → Word → Option Word
  | 0, p => some p
  | level + 1, p =>
      (verifyExistingChildTable s (s.memory p (levelIndex (level + 1) va)) level owner).bind
        (s.checkedPath owner va level)

/-- The steps lead to the page table of the address, or a walk finds no page either. -/
theorem checkedPath_cases {p owner : Word} {t : Table} {level : ℕ} (ht : s.tables p = some t)
    (hl : t.level = level) (ho : t.owner = owner) :
    (s.checkedPath owner va level p = none ∧
        ∀ entry, s.tables.walk owner level p va ≠ some (0, entry)) ∨
      ∃ pt u, s.checkedPath owner va level p = some pt ∧
        s.tables.forest.descend (Tables.path level va) p = some pt ∧ s.tables pt = some u ∧
        u.level = 0 ∧ u.owner = owner ∧
        s.tables.walk owner level p va = s.tables.walk owner 0 pt va := by
  induction level generalizing p t with
  | zero => exact .inr ⟨p, t, rfl, rfl, ht, hl, ho, rfl⟩
  | succ level ih =>
      rw [Paging.checkedPath, Tables.walk_succ ht hl ho, Tables.descend_succ ht]
      rcases verifyExistingChildTable_cases ht level hl (levelIndex (level + 1) va) owner with
        hnone | ⟨c, u, hsome, hchild, hu, hul, huo⟩
      · rw [hnone]
        refine .inl ⟨rfl, fun entry hwalk => ?_⟩
        split_ifs at hwalk with hpresent hhuge htop
        · cases hwalk
        · rw [memory_of_tables ht, verifyExistingChildTable_eq_verified s (by simpa using hpresent)
            (by simpa using hhuge), Option.map_eq_none_iff] at hnone
          rw [Tables.walk_of_not_verified hnone] at hwalk
          cases hwalk
      · obtain ⟨-, hpresent, hhuge, rfl⟩ := entryChild_eq_some.mp hchild
        rw [hsome, hchild, if_neg (by simp [hpresent]), if_neg (by simp [hhuge])]
        exact ih hu hul huo

/-- **`vmm_unmap_page` on arbitrary tables**: it does nothing where the address is not that of
a mapped page, and clears the entry of one that is. -/
theorem vmmUnmapPage_page (s : Paging) (pml4 va : Word) :
    (vmmUnmapPage s pml4 va = (none, s) ∧
        (va &&& 0xFFF = 0 → ∀ entry, s.tables.lookup pml4 va ≠ some (0, entry))) ∨
      ∃ root pt t, s.tables pml4 = some root ∧ root.level = vmmLevelPml4 ∧ root.owner = pml4 ∧
        s.tables.forest.descend (Tables.path vmmLevelPml4 va) pml4 = some pt ∧
        s.tables pt = some t ∧ t.level = vmmLevelPt ∧ t.owner = pml4 ∧ va &&& 0xFFF = 0 ∧
        s.tables.lookup pml4 va = some (0, t.entries (ptIndex va)) ∧
        vmmUnmapPage s pml4 va =
          (some (entryAddress (t.entries (ptIndex va))), s.write pt (ptIndex va) 0) := by
  by_cases hverify : vmmVerifyPageTableRoot s pml4 = true
  swap
  · -- not a root: neither the call nor a walk gets anywhere
    rw [Bool.not_eq_true] at hverify
    refine .inl ⟨?_, fun _ entry hlookup => ?_⟩
    · unfold vmmUnmapPage
      rw [hverify]
      exact ite_self _
    · rw [Tables.lookup, Tables.walk_of_not_verified] at hlookup
      · cases hlookup
      · refine Tables.verified_eq_none fun t ht hl ho => ?_
        rw [vmmVerifyPageTableRoot_iff.mpr ⟨t, ht, hl, ho⟩] at hverify
        cases hverify
  obtain ⟨root, hroot, hlevel, howner⟩ := vmmVerifyPageTableRoot_iff.mp hverify
  by_cases hva : va &&& 0xFFF = 0
  swap
  · refine .inl ⟨?_, fun h => absurd h hva⟩
    unfold vmmUnmapPage
    rw [if_pos hva, ite_self, ite_self]
  have hsteps : vmmUnmapPage s pml4 va = (s.checkedPath pml4 va vmmLevelPml4 pml4).elim (none, s)
      fun pt => if isPresent (s.memory pt (ptIndex va)) = false then (none, s)
        else (some (entryAddress (s.memory pt (ptIndex va))), s.write pt (ptIndex va) 0) := by
    unfold vmmUnmapPage
    rw [if_neg (ne_of_eq_none hroot (tables_zero _)), if_neg (by rw [hverify]; decide),
      if_neg (not_not.mpr hva)]
    change _ = Option.elim (Option.bind (verifyExistingChildTable s (s.memory pml4 (pml4Index va))
      vmmLevelPdpt pml4) _) _ _
    cases verifyExistingChildTable s (s.memory pml4 (pml4Index va)) vmmLevelPdpt pml4 with
    | none => rfl
    | some pdpt =>
        dsimp only
        change _ = Option.elim
          (Option.bind (verifyExistingChildTable s (s.memory pdpt (pdptIndex va))
          vmmLevelPd pml4) _) _ _
        cases verifyExistingChildTable s (s.memory pdpt (pdptIndex va)) vmmLevelPd pml4 with
        | none => rfl
        | some pd =>
            dsimp only
            change _ = Option.elim (Option.bind (verifyExistingChildTable s
              (s.memory pd (pdIndex va)) vmmLevelPt pml4) _) _ _
            cases verifyExistingChildTable s (s.memory pd (pdIndex va)) vmmLevelPt pml4 with
            | none => rfl
            | some pt => rfl
  rw [hsteps, Tables.lookup]
  rcases checkedPath_cases hroot hlevel howner with
    ⟨hnone, hwalk⟩ | ⟨pt, t, hsome, hdesc, ht, hl, ho, hwalk⟩
  · rw [hnone]
    exact .inl ⟨rfl, fun _ => hwalk⟩
  · rw [hsome, hwalk, Tables.walk_zero ht hl ho, Option.elim_some, memory_of_tables ht,
      show levelIndex 0 va = ptIndex va from rfl]
    split_ifs with hpresent
    · exact .inl ⟨rfl, nofun⟩
    · exact .inr ⟨root, pt, t, hroot, hlevel, howner, hdesc, ht, hl, ho, hva, rfl, rfl⟩

/-- **The outcomes of `vmm_unmap_page`** in a forest: nothing, where no page is mapped, or one
leaf entry cleared. -/
theorem vmmUnmapPage_cases {loose : Set Word} (hwf : s.tables.forest.Wf vmmLevelPml4 loose)
    (pml4 va : Word) :
    (vmmUnmapPage s pml4 va = (none, s) ∧
        (va &&& 0xFFF = 0 → ∀ entry, s.tables.lookup pml4 va ≠ some (0, entry))) ∨
      ∃ root pt t, s.tables pml4 = some root ∧ root.level = vmmLevelPml4 ∧ root.owner = pml4 ∧
        s.tables.forest.descend (Tables.path vmmLevelPml4 va) pml4 = some pt ∧
        s.tables pt = some t ∧ t.level = vmmLevelPt ∧ t.owner = pml4 ∧
        s.tables.lookup pml4 va = some (0, t.entries (ptIndex va)) ∧
        vmmUnmapPage s pml4 va =
          (some (entryAddress (t.entries (ptIndex va))), s.write pt (ptIndex va) 0) ∧
        ∀ va', (s.write pt (ptIndex va) 0).tables.lookup pml4 va' =
          if Tables.SamePath va' va then none else s.tables.lookup pml4 va' := by
  refine (vmmUnmapPage_page s pml4 va).imp id ?_
  rintro ⟨root, pt, t, hroot, hl, ho, hdesc, ht, hl₀, ho₀, -, hlookup, heq⟩
  refine ⟨root, pt, t, hroot, hl, ho, hdesc, ht, hl₀, ho₀, hlookup, heq, fun va' => ?_⟩
  have hwrite := Tables.lookup_writeLeaf hwf hroot hl ho hdesc ht hl₀ 0 va'
  have hleaf : Tables.leafOf 0 = none := if_pos isPresent_zero
  rw [hleaf] at hwrite
  rw [tables_write]
  exact hwrite

end Unmap

end Batos
