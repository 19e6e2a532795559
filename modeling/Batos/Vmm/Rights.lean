import Batos.Vmm.Descent
import Batos.Vmm.Run

/-!
# Effective rights of a mapping

The processor grants a right on an address when every entry on the way to its page
grants it.  `vmm_map_page` writes the requested rights into the leaf, and into the
entries of the tables it creates; entries that are there already are left as they
are.  So the effective rights are the requested ones exactly when the existing
entries do not withhold any of them (`mapPage_rights_iff`).  A supervisor mapping
followed by a user mapping in the same region is a case where they do.

The processor does not consult the registry: its walk is over memory alone
(`walkEntries`).
-/

namespace Batos

variable {s s' : Paging} {flags va flag pml4 pa : Word}

/-- The entries the processor reads on the way to an address, from a table of this
level down to a page-table entry, a huge leaf or an absent entry. -/
def walkEntries (memory : Word → Fin 512 → Word) : (level : ℕ) → (p va : Word) → List Word
  | 0, p, va => [memory p (levelIndex 0 va)]
  | level + 1, p, va =>
      let entry := memory p (levelIndex (level + 1) va)
      entry :: if isPresent entry = true ∧ isHuge entry = false then
        walkEntries memory level (entryAddress entry) va else []

/-- The conjunction of one permission bit over the path of an address. -/
def effectiveRight (flag : Word) (s : Paging) (root va : Word) : Bool :=
  (walkEntries s.memory vmmLevelPml4 root va).all (hasFlag flag)

/-- No present entry on the path of an address withholds the right. -/
def PathGrants (flag : Word) (s : Paging) (level : ℕ) (p va : Word) : Prop :=
  ∀ entry ∈ walkEntries s.memory level p va, isPresent entry = true → hasFlag flag entry = true

instance (flag : Word) (s : Paging) (level : ℕ) (p va : Word) :
    Decidable (PathGrants flag s level p va) :=
  inferInstanceAs (Decidable (∀ entry ∈ _, _))

section Path

variable {s : Paging} {p c va : Word} {level : ℕ} {flag : Word} {index : Fin 512}

/-- The processor follows a pointer of the forest. -/
theorem walkEntries_of_edge (hindex : levelIndex (level + 1) va = index)
    (hedge : s.tables.forest.edge p index = some c) :
    isPresent (s.memory p index) = true ∧
      walkEntries s.memory (level + 1) p va =
        s.memory p index :: walkEntries s.memory level c va := by
  subst hindex
  cases ht : s.tables p with
  | none => simp [Tables.forest, ht] at hedge
  | some t =>
      rw [Tables.forest_edge ht, ← memory_of_tables ht, entryChild_eq_some] at hedge
      obtain ⟨-, hpresent, hhuge, rfl⟩ := hedge
      refine ⟨hpresent, ?_⟩
      rw [walkEntries]
      exact congrArg _ (if_pos ⟨hpresent, hhuge⟩)

theorem pathGrants_of_edge (hindex : levelIndex (level + 1) va = index)
    (hedge : s.tables.forest.edge p index = some c) :
    PathGrants flag s (level + 1) p va ↔
      hasFlag flag (s.memory p index) = true ∧ PathGrants flag s level c va := by
  obtain ⟨hpresent, hwalk⟩ := walkEntries_of_edge hindex hedge
  unfold PathGrants
  rw [hwalk, List.forall_mem_cons]
  exact and_congr_left fun _ => ⟨fun h => h hpresent, fun h _ => h⟩

/-- A path that ends at once withholds nothing. -/
theorem pathGrants_of_absent (h : isPresent (s.memory p (levelIndex level va)) = false) :
    PathGrants flag s level p va := by
  intro entry hentry hpresent
  have heq : entry = s.memory p (levelIndex level va) := by
    cases level with
    | zero => exact List.mem_singleton.mp hentry
    | succ level =>
        simpa [walkEntries, h] using hentry
  rw [heq, h] at hpresent
  cases hpresent

end Path

/-! ## One step of the descent -/

/-- **One step of the descent withholds no requested right.**  If what is below the
child grants the right exactly when it did and the call requests it, then so does
what is below the parent. -/
theorem Paging.ChildStep.pathGrants {s₁ : Paging} {parent owner c : Word} {level : ℕ} {b : Bool}
    {t : Table} {index : Fin 512} (hstep : s.ChildStep parent index flags level owner b c s₁)
    (hindex : levelIndex (level + 1) va = index) (h : s.Inv ∅) (htab : s.tables parent = some t)
    (hlevel : t.level = level + 1) (howner : t.owner = owner) (hgrows : s₁.Grows owner s')
    (hflag : FrameAligned c → hasFlag flag flags = true → hasFlag flag (tableEntry c flags) = true)
    (hbelow : PathGrants flag s' level c va ↔ PathGrants flag s₁ level c va ∧
      hasFlag flag flags = true) :
    PathGrants flag s' (level + 1) parent va ↔
      PathGrants flag s (level + 1) parent va ∧ hasFlag flag flags = true := by
  have hedge := hstep.edge h htab hlevel
  obtain ⟨t₁, ht₁, -⟩ := (hstep.grows h htab howner).keeps htab
  have hentry := hgrows.memory ht₁ (walkEntries_of_edge hindex hedge).1
  rw [pathGrants_of_edge hindex (hgrows.edge hedge), hentry, hbelow]
  cases hstep with
  | existing edge => rw [pathGrants_of_edge hindex edge, and_assoc]
  | created table parentLevel empty creates =>
      -- the path used to end at the parent, and now ends in the empty child
      have hpc : parent ≠ c := ne_of_eq_none htab (h.tables_of_free creates.free)
      have hnew : s₁.tables c = some ⟨level, owner, fun _ => 0⟩ := by
        rw [creates.tables, Tables.writeEntry_of_ne hpc.symm, Tables.insertTable_self]
      have hparent : s₁.memory parent index = tableEntry c flags := by
        have hkept : s.tables.insertTable c level owner parent = some t :=
          (Tables.insertTable_of_ne hpc _ _).trans htab
        have hwritten : s₁.tables parent = _ :=
          (congrFun creates.tables parent).trans (Tables.writeEntry_self hkept _ _)
        rw [memory_of_tables hwritten]
        exact Function.update_self _ _ _
      have hbefore : PathGrants flag s (level + 1) parent va := by
        refine pathGrants_of_absent ?_
        obtain rfl := Option.some.inj (htab.symm.trans table)
        rw [memory_of_tables htab, hindex]
        exact empty
      have hafter : PathGrants flag s₁ level c va := by
        refine pathGrants_of_absent ?_
        rw [memory_of_tables hnew]
        exact isPresent_zero
      rw [hparent]
      exact ⟨fun hall => ⟨hbefore, hall.2.2⟩, fun hall =>
        ⟨hflag creates.aligned hall.2, hafter, hall.2⟩⟩

/-- A successful `vmm_map_page` grants a right on the path exactly when it requests it
and the entries that were there grant it. -/
theorem Paging.Maps.pathGrants (h : s.Inv ∅) (hmaps : s.Maps pml4 va pa flags s')
    (htable : ∀ c, FrameAligned c → hasFlag flag flags = true → hasFlag flag (tableEntry
      c flags) = true)
    (hleaf : hasFlag flag (leafEntry pa flags) = hasFlag flag flags) :
    PathGrants flag s' vmmLevelPml4 pml4 va ↔
      PathGrants flag s vmmLevelPml4 pml4 va ∧ hasFlag flag flags = true := by
  obtain ⟨t₃, ht₃, hl₃, ho₃⟩ := hmaps.root
  obtain ⟨pdpt, pd, pt, b₂, b₁, b₀, s₁, s₂, s₃, t, hstep₂, hstep₁, hstep₀, hinv₁, hinv₂, hinv₃,
    ht, hl, ho, hempty, rfl⟩ := hmaps.descent
  obtain ⟨t₂, ht₂, hl₂, ho₂⟩ := hstep₂.child h ht₃ hl₃ ho₃ hinv₁
  obtain ⟨t₁, ht₁, hl₁, ho₁⟩ := hstep₁.child hinv₁ ht₂ hl₂ ho₂ hinv₂
  have hgrows := Paging.Grows.of_write ht ho hempty (leafEntry pa flags)
  have hgrows₀ := (hstep₀.grows hinv₂ ht₁ ho₁).trans hgrows
  have hgrows₁ := (hstep₁.grows hinv₁ ht₂ ho₂).trans hgrows₀
  refine hstep₂.pathGrants rfl h ht₃ hl₃ ho₃ hgrows₁ (htable pdpt) ?_
  refine hstep₁.pathGrants rfl hinv₁ ht₂ hl₂ ho₂ hgrows₀ (htable pd) ?_
  refine hstep₀.pathGrants rfl hinv₂ ht₁ hl₁ ho₁ hgrows (htable pt) ?_
  have hbefore : PathGrants flag s₃ 0 pt va := by
    refine pathGrants_of_absent ?_
    rw [memory_of_tables ht]
    exact hempty
  have hstored : (s₃.write pt (ptIndex va) (leafEntry pa flags)).memory pt (levelIndex 0 va) =
      leafEntry pa flags := memory_write_self s₃ pt (ptIndex va) _
  unfold PathGrants walkEntries
  rw [hstored, List.forall_mem_singleton, isPresent_leafEntry, hleaf]
  exact ⟨fun hgrant => ⟨hbefore, hgrant rfl⟩, fun hboth _ => hboth.2⟩

/-- After a successful `vmm_map_page` the path is complete, so that the effective right
is what the present entries grant. -/
theorem Paging.Maps.effectiveRight_iff (h : s.Inv ∅) (hmaps : s.Maps pml4 va pa flags s')
    (flag : Word) :
    effectiveRight flag s' pml4 va = true ↔ PathGrants flag s' vmmLevelPml4 pml4 va := by
  obtain ⟨s₃, pt, t, hdesc, rfl⟩ := hmaps.descends h
  have hgrows := Paging.Grows.of_write hdesc.table hdesc.owner hdesc.empty (leafEntry pa flags)
  obtain ⟨pdpt, pd, h₃, h₂, h₁⟩ := Tables.edges_of_path (hgrows.path hdesc.path)
  have hstored : (s₃.write pt (ptIndex va) (leafEntry pa flags)).memory pt (levelIndex 0 va) =
      leafEntry pa flags := memory_write_self s₃ pt (ptIndex va) _
  have hpresent : ∀ entry ∈ walkEntries (s₃.write pt (ptIndex va) (leafEntry pa flags)).memory
      vmmLevelPml4 pml4 va, isPresent entry = true := by
    obtain ⟨hp₃, hw₃⟩ := walkEntries_of_edge (rfl : levelIndex 3 va = pml4Index va) h₃
    obtain ⟨hp₂, hw₂⟩ := walkEntries_of_edge (rfl : levelIndex 2 va = pdptIndex va) h₂
    obtain ⟨hp₁, hw₁⟩ := walkEntries_of_edge (rfl : levelIndex 1 va = pdIndex va) h₁
    rw [hw₃, hw₂, hw₁, walkEntries, hstored]
    simp only [List.forall_mem_cons]
    exact ⟨hp₃, hp₂, hp₁, isPresent_leafEntry _ _, fun _ hmem => absurd hmem List.not_mem_nil⟩
  unfold effectiveRight PathGrants
  rw [List.all_eq_true]
  exact forall₂_congr fun entry hentry =>
    ⟨fun hgrant _ => hgrant, fun hgrant => hgrant (hpresent entry hentry)⟩

/-- One right after a successful call. -/
theorem Paging.Maps.effectiveRight_eq_iff (h : s.Inv ∅) (hmaps : s.Maps pml4 va pa flags s')
    (htable : ∀ c, FrameAligned c → hasFlag flag flags = true → hasFlag flag (tableEntry
      c flags) = true)
    (hleaf : hasFlag flag (leafEntry pa flags) = hasFlag flag flags) :
    effectiveRight flag s' pml4 va = hasFlag flag flags ↔
      (hasFlag flag flags = true → PathGrants flag s vmmLevelPml4 pml4 va) := by
  rw [Bool.eq_iff_iff, hmaps.effectiveRight_iff h, hmaps.pathGrants h htable hleaf]
  tauto

/-- **When the effective rights are the requested ones.**  In every reachable state and
for every `vmm_map_page` that succeeds: exactly when the entries already present on
the path of the address grant every right the call requests. -/
theorem mapPage_rights_iff (image : KernelImage) (boot : MmBoot) {ops : List MmOp}
    (hops : (mmSystem image).Admissible boot.start ops) {s : Paging}
    (hs : ((mmSystem image).run boot.start ops).vmm.paging = s) {root va pa flags : Word}
    (hmap : (vmmMapPage s root va pa flags).1 = 0) :
    (effectiveRight vmmWritable (vmmMapPage s root va pa flags).2 root va =
        hasFlag vmmWritable flags ∧
      effectiveRight vmmUser (vmmMapPage s root va pa flags).2 root va = hasFlag vmmUser flags) ↔
    ((hasFlag vmmWritable flags = true → PathGrants vmmWritable s vmmLevelPml4 root va) ∧
      (hasFlag vmmUser flags = true → PathGrants vmmUser s vmmLevelPml4 root va)) := by
  have hinv : s.Inv ∅ := hs ▸ (Mm.inv_run image boot hops).paging
  rcases vmmMapPage_cases hinv root va pa flags with ⟨s', heq, -⟩ | ⟨s', heq, -, hmaps⟩
  · rw [heq] at hmap
    exact absurd hmap (by decide : (-1 : ℤ) ≠ 0)
  · rw [heq]
    refine and_congr (hmaps.effectiveRight_eq_iff hinv (fun c _ _ => ?_) ?_)
      (hmaps.effectiveRight_eq_iff hinv (fun c hc huser => ?_) ?_)
    · exact hasWritable_tableEntry flags
    · exact hasWritable_leafEntry flags pa
    · rw [hasUser_tableEntry hc]
      exact huser
    · exact hasUser_leafEntry flags pa

/-- The first mapping of a region gets what it asks for. -/
theorem mapPage_rights_iff_demo :
    effectiveRight vmmWritable (vmmMapPage demoBoot.start.vmm.paging 0x2000 0x400000 0x8000 6).2
        0x2000 0x400000 = hasFlag vmmWritable 6 ∧
      effectiveRight vmmUser (vmmMapPage demoBoot.start.vmm.paging 0x2000 0x400000 0x8000 6).2
        0x2000 0x400000 = hasFlag vmmUser 6 :=
  (@mapPage_rights_iff demoImage demoBoot [] trivial demoBoot.start.vmm.paging rfl 0x2000 0x400000
    0x8000 6 (by decide +kernel)).mpr
    ⟨fun _ => pathGrants_of_absent (by decide +kernel),
      fun _ => pathGrants_of_absent (by decide +kernel)⟩

/-- A PML4 entry that is there goes on withholding what it withholds. -/
theorem effectiveRight_mapPage_eq_false (h : s.Inv ∅) {root : Word}
    (hmap : (vmmMapPage s root va pa flags).1 = 0)
    (hpresent : isPresent (s.memory root (pml4Index va)) = true)
    (hwithheld : hasFlag flag (s.memory root (pml4Index va)) = false) :
    effectiveRight flag (vmmMapPage s root va pa flags).2 root va = false := by
  rcases vmmMapPage_cases h root va pa flags with ⟨s', heq, -⟩ | ⟨s', heq, -, hmaps⟩
  · rw [heq] at hmap
    exact absurd hmap (by decide : (-1 : ℤ) ≠ 0)
  · rw [heq]
    obtain ⟨t, ht, -⟩ := hmaps.root
    have hentry := (hmaps.grows h).memory ht hpresent
    unfold effectiveRight
    rw [walkEntries, List.all_cons]
    change (hasFlag flag (s'.memory root (pml4Index va)) && _) = false
    rw [hentry, hwithheld, Bool.false_and]

/-- After a supervisor mapping, a user mapping of the next page succeeds and is not
accessible to the user. -/
theorem user_right_withheld :
    (mmSystem demoImage).Admissible demoBoot.start [.mapPage 0x2000 0x400000 0x8000 2] ∧
      (vmmMapPage ((mmSystem demoImage).run demoBoot.start
        [.mapPage 0x2000 0x400000 0x8000 2]).vmm.paging 0x2000 0x401000 0x9000 6).1 = 0 ∧
      effectiveRight vmmUser (vmmMapPage ((mmSystem demoImage).run demoBoot.start
        [.mapPage 0x2000 0x400000 0x8000 2]).vmm.paging 0x2000 0x401000 0x9000 6).2
        0x2000 0x401000 = false ∧
      hasFlag vmmUser 6 = true := by
  have hops : (mmSystem demoImage).Admissible demoBoot.start
      [.mapPage 0x2000 0x400000 0x8000 2] := by decide +kernel
  have hmap : (vmmMapPage ((mmSystem demoImage).run demoBoot.start
      [.mapPage 0x2000 0x400000 0x8000 2]).vmm.paging 0x2000 0x401000 0x9000 6).1 = 0 := by
    decide +kernel
  refine ⟨hops, hmap, ?_, by decide⟩
  exact effectiveRight_mapPage_eq_false (Mm.inv_run demoImage demoBoot hops).paging hmap
    (by decide +kernel) (by decide +kernel)

end Batos
