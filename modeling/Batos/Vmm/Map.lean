import Batos.Vmm.Tables

/-!
# `vmm_map_page` and `vmm_unmap_page`

`vmm_map_page` descends from the root to the page table of its address, creating
the tables that are missing, and undoes the creations when a later step fails.
The file says what one step of the descent can do (`getOrCreateTable_cases`), that
a rollback undoes exactly one creation (`rollbackPageTable_undoes`), and puts the
two together: a call that fails leaves nothing behind, and a call that succeeds is
three steps of descent followed by one store into an empty leaf entry
(`vmmMapPage_cases`).
-/

namespace Batos

variable {c : Word} {s₁ s₂ s : Paging}

/-- What `get_or_create_table` does when it creates the child. -/
structure Paging.Creates (s : Paging) (parent : Word) (index : Fin 512) (flags : Word) (level : ℕ)
    (owner c : Word) (s' : Paging) : Prop where
  nonzero : c ≠ 0
  aligned : FrameAligned c
  free : s.pmm.Free (frameOf c)
  tables : s'.tables =
    (s.tables.insertTable c level owner).writeEntry parent index (tableEntry c flags)
  pmm : s'.pmm = s.pmm.reserve (frameOf c)
  memory : ∀ q, q ≠ c → q ≠ parent → s'.memory q = s.memory q

/-- One step of the descent: follow the entry, or create the table it lacks.  The
Boolean is the source's `created`. -/
inductive Paging.ChildStep (s : Paging) (parent : Word) (index : Fin 512) (flags : Word)
    (level : ℕ) (owner : Word) : Bool → Word → Paging → Prop
  | existing {c : Word} (edge : s.tables.forest.edge parent index = some c) :
      ChildStep s parent index flags level owner false c s
  | created {c : Word} {s' : Paging} {t : Table} (table : s.tables parent = some t)
      (parentLevel : t.level = level + 1) (empty : isPresent (t.entries index) = false)
      (creates : s.Creates parent index flags level owner c s') :
      ChildStep s parent index flags level owner true c s'

section Step

variable {s s' : Paging} {parent : Word} {t : Table} {index : Fin 512} {flags : Word} {level : ℕ}
  {owner : Word}

/-- An accepted child is the one the entry points to. -/
theorem verifyExistingChildTable_cases (htab : s.tables parent = some t) (level : ℕ)
    (hlevel : t.level = level + 1) (index : Fin 512) (owner : Word) :
    verifyExistingChildTable s (s.memory parent index) level owner = none ∨
      ∃ c u, verifyExistingChildTable s (s.memory parent index) level owner = some c ∧
        entryChild t.level (t.entries index) = some c ∧ s.tables c = some u ∧
        u.level = level ∧ u.owner = owner := by
  rw [memory_of_tables htab]
  unfold verifyExistingChildTable
  split_ifs with hpresent hhuge hverify
  · exact .inl rfl
  · exact .inl rfl
  · obtain ⟨u, hu, hul, huo⟩ := verifyPageTableRecord_iff.mp hverify
    refine .inr ⟨_, u, rfl, ?_, hu, hul, huo⟩
    exact entryChild_eq_some.mpr ⟨by omega, by simpa using hpresent, by simpa using hhuge, rfl⟩
  · exact .inl rfl

/-- A created child is a new empty table, linked to its parent. -/
theorem Paging.Creates.inv (flags : Word) (h : s.Inv ∅) (htab : s.tables parent = some t)
    (hempty : isPresent (t.entries index) = false) (hlevel : t.level = level + 1)
    (howner : t.owner = owner) (halloc : s.Allocates c level owner s₁)
    (hinv : s₁.Inv (insert c ∅)) :
    s.Creates parent index flags level owner c (s₁.write parent index (tableEntry c flags)) ∧
      (s₁.write parent index (tableEntry c flags)).Inv ∅ := by
  have hne : parent ≠ c := ne_of_eq_none htab (h.tables_of_free halloc.free)
  have htab₁ : s₁.tables parent = some t := (halloc.tables_of_ne hne).trans htab
  refine ⟨⟨halloc.nonzero, halloc.aligned, halloc.free, ?_, halloc.pmm, ?_⟩, ?_⟩
  · rw [tables_write, halloc.tables]
  · intro q hqc hqp
    rw [memory_write_of_ne hqp]
    exact halloc.memory q hqc
  · refine inv_write_link hinv (Set.notMem_empty c) htab₁ halloc.tables_self
      (entryChild_of_not_present hempty) ?_ hlevel howner
    exact entryChild_tableEntry (by omega) halloc.aligned flags

/-- **The outcomes of `get_or_create_table`** on an entry of a registered table. -/
theorem getOrCreateTable_cases (h : s.Inv ∅) (htab : s.tables parent = some t) (level : ℕ)
    (hlevel : t.level = level + 1) (howner : t.owner = owner) (index : Fin 512) (flags : Word) :
    (∃ s', getOrCreateTable s parent index flags level owner = (none, s') ∧ s'.Inv ∅ ∧
        s.Same s') ∨
      ∃ c created s' u,
        getOrCreateTable s parent index flags level owner = (some (c, created), s') ∧
          s.ChildStep parent index flags level owner created c s' ∧ s'.Inv ∅ ∧
          s'.tables c = some u ∧ u.level = level ∧ u.owner = owner := by
  unfold getOrCreateTable
  by_cases hpresent : isPresent (s.memory parent index) = true
  · rw [if_pos hpresent]
    rcases verifyExistingChildTable_cases htab level hlevel index owner with
      hnone | ⟨c, u, hsome, hedge, hu⟩
    · rw [hnone]
      exact .inl ⟨s, rfl, h, .refl s⟩
    · rw [hsome]
      rw [← Tables.forest_edge htab] at hedge
      exact .inr ⟨c, false, s, u, rfl, .existing hedge, h, hu⟩
  · rw [if_neg hpresent]
    have hempty : isPresent (t.entries index) = false := by
      rw [memory_of_tables htab] at hpresent
      simpa using hpresent
    have hle : t.level ≤ vmmLevelPml4 := h.wf.level_le (Tables.forest_info htab)
    rcases allocatePageTable_cases h level owner (by omega) (by omega) with
      ⟨s', heq, hinv, hsame⟩ | ⟨c, s₁, heq, halloc, hinv⟩
    · rw [heq]
      exact .inl ⟨s', rfl, hinv, hsame⟩
    · rw [heq]
      rw [if_neg (by omega)] at halloc
      obtain ⟨hcreates, hinv'⟩ :=
        Paging.Creates.inv flags h htab hempty hlevel howner halloc hinv
      have hne : c ≠ parent := (ne_of_eq_none htab (h.tables_of_free halloc.free)).symm
      refine .inr ⟨c, true, _, ⟨level, owner, fun _ => 0⟩, rfl,
        .created htab hlevel hempty hcreates, hinv', ?_, rfl, rfl⟩
      rw [hcreates.tables, Tables.writeEntry_of_ne hne, Tables.insertTable_self]

/-- **A rollback undoes one creation**, also when steps that left nothing behind
came in between. -/
theorem rollbackPageTable_undoes (h : s.Inv ∅) (htab : s.tables parent = some t)
    (hlevel : t.level = level + 1) (hempty : isPresent (t.entries index) = false)
    (hcreates : s.Creates parent index flags level owner c s₁) (hsame : s₁.Same s₂)
    (hinv : s₂.Inv ∅) :
    s.Same (rollbackPageTable s₂ parent index c) ∧
      (rollbackPageTable s₂ parent index c).Inv ∅ := by
  have hcnone : s.tables c = none := h.tables_of_free hcreates.free
  have hne : c ≠ parent := (ne_of_eq_none htab hcnone).symm
  -- the two tables as the rollback finds them
  have hctab : s₂.tables c = some ⟨level, owner, fun _ => 0⟩ := by
    rw [hsame.tables, hcreates.tables, Tables.writeEntry_of_ne hne, Tables.insertTable_self]
  have hptab : s₂.tables parent =
      some { t with entries := Function.update t.entries index (tableEntry c flags) } := by
    rw [hsame.tables, hcreates.tables, Tables.writeEntry_self]
    rwa [Tables.insertTable_of_ne hne.symm]
  have hentry : s₂.memory parent index = tableEntry c flags := by
    rw [memory_of_tables hptab]
    exact Function.update_self _ _ _
  have hchild : entryChild t.level (tableEntry c flags) = some c :=
    entryChild_tableEntry (by omega) hcreates.aligned flags
  have hroll : rollbackPageTable s₂ parent index c =
      releasePageTable (s₂.write parent index 0) c := by
    unfold rollbackPageTable
    rw [if_neg (not_or.mpr ⟨(h.frames htab).nonzero, hcreates.nonzero⟩), hentry,
      if_neg (by rw [isPresent_tableEntry]; decide),
      if_neg (by rw [entryAddress_tableEntry hcreates.aligned]; simp)]
  rw [hroll]
  -- detach, then release
  have hinv₃ : (s₂.write parent index 0).Inv (insert c ∅) :=
    inv_write_unlink hinv hptab (by simpa using hchild)
  have hctab₃ : (s₂.write parent index 0).tables c = some ⟨level, owner, fun _ => 0⟩ := by
    rw [tables_write, Tables.writeEntry_of_ne hne]
    exact hctab
  obtain ⟨htables, hpmm, hmemory, -⟩ := releasePageTable_effect hinv₃.booked hctab₃
  have hinv₄ := inv_releasePageTable hinv₃ (Set.notMem_empty c) hctab₃ fun i =>
    entryChild_zero level
  have htablesEq : (releasePageTable (s₂.write parent index 0) c).tables = s.tables := by
    rw [htables, tables_write]
    funext q
    by_cases hqc : q = c
    · subst hqc
      rw [Tables.removeTable_self, hcnone]
    · rw [Tables.removeTable_of_ne hqc]
      by_cases hqp : q = parent
      · subst hqp
        rw [Tables.writeEntry_self hptab, htab]
        congr 1
        have hzero : t.entries index = 0 := h.clean htab hempty
        rw [Table.mk.injEq]
        refine ⟨rfl, rfl, ?_⟩
        rw [Function.update_idem, ← hzero, Function.update_eq_self]
      · rw [Tables.writeEntry_of_ne hqp, hsame.tables, hcreates.tables,
          Tables.writeEntry_of_ne hqp, Tables.insertTable_of_ne hqc]
  refine ⟨⟨htablesEq, fun f => ?_, ?_, fun q hq => ?_⟩, hinv₄⟩
  · rw [hpmm, Pmm.used_release]
    change (!decide (f = frameOf c) && s₂.pmm.used f) = _
    rw [hsame.used, hcreates.pmm, Pmm.used_reserve]
    by_cases hf : f = frameOf c
    · rw [hf, hcreates.free.2.2]
      simp
    · simp [hf]
  · rw [hpmm]
    refine Pmm.SameGeometry.trans ?_ (Pmm.sameGeometry_release _ _)
    refine Pmm.SameGeometry.trans ?_ hsame.geometry
    rw [hcreates.pmm]
    exact s.pmm.sameGeometry_reserve _
  · by_cases hqp : q = parent
    · subst hqp
      rw [memory_of_tables (htablesEq.symm ▸ htab), memory_of_tables htab]
    · have hqc : q ≠ c := by
        rintro rfl
        exact hq hcreates.free
      rw [hmemory, memory_write_of_ne hqp]
      rw [hsame.memory q, hcreates.memory q hqc hqp]
      rw [hcreates.pmm]
      rintro ⟨hpos, hrange, hclear⟩
      rw [Pmm.used_reserve, Bool.or_eq_false_iff] at hclear
      exact hq ⟨hpos, hrange, hclear.2⟩

/-- The conditional rollback of `vmm_map_page` undoes one step of the descent. -/
theorem rollbackIf_undoes {created : Bool} (h : s.Inv ∅)
    (hstep : s.ChildStep parent index flags level owner created c s₁) (hsame : s₁.Same s₂)
    (hinv : s₂.Inv ∅) :
    s.Same (rollbackIf created s₂ parent index c) ∧
      (rollbackIf created s₂ parent index c).Inv ∅ := by
  cases hstep with
  | existing edge => exact ⟨hsame, hinv⟩
  | created table parentLevel empty creates =>
      exact rollbackPageTable_undoes h table parentLevel empty creates hsame hinv

end Step

/-! ## The whole call -/

/-- A successful `vmm_map_page`: the descent and the store. -/
structure Paging.Maps (s : Paging) (pml4 va pa flags : Word) (s' : Paging) : Prop where
  admissible : flags &&& ~~~(vmmWritable ||| vmmUser) = 0
  root : ∃ t, s.tables pml4 = some t ∧ t.level = vmmLevelPml4 ∧ t.owner = pml4
  va_aligned : va &&& 0xFFF = 0
  pa_aligned : pa &&& 0xFFF = 0
  descent : ∃ pdpt pd pt : Word, ∃ b₂ b₁ b₀ : Bool, ∃ s₁ s₂ s₃ : Paging, ∃ t : Table,
    s.ChildStep pml4 (pml4Index va) flags vmmLevelPdpt pml4 b₂ pdpt s₁ ∧
    s₁.ChildStep pdpt (pdptIndex va) flags vmmLevelPd pml4 b₁ pd s₂ ∧
    s₂.ChildStep pd (pdIndex va) flags vmmLevelPt pml4 b₀ pt s₃ ∧
    s₁.Inv ∅ ∧ s₂.Inv ∅ ∧ s₃.Inv ∅ ∧
    s₃.tables pt = some t ∧ t.level = vmmLevelPt ∧ t.owner = pml4 ∧
    isPresent (t.entries (ptIndex va)) = false ∧
    s' = s₃.write pt (ptIndex va) (leafEntry pa flags)

/-- **The outcomes of `vmm_map_page`.**  A call that fails leaves nothing behind. -/
theorem vmmMapPage_cases (h : s.Inv ∅) (pml4 va pa flags : Word) :
    (∃ s', vmmMapPage s pml4 va pa flags = (-1, s') ∧ s'.Inv ∅ ∧ s.Same s') ∨
      ∃ s', vmmMapPage s pml4 va pa flags = (0, s') ∧ s'.Inv ∅ ∧ s.Maps pml4 va pa flags s' := by
  have hstay : (∃ s', ((-1 : ℤ), s) = (-1, s') ∧ s'.Inv ∅ ∧ s.Same s') ∨
      ∃ s', ((-1 : ℤ), s) = (0, s') ∧ s'.Inv ∅ ∧ s.Maps pml4 va pa flags s' :=
    .inl ⟨s, rfl, h, .refl s⟩
  unfold vmmMapPage
  split_ifs with hzero hflags hroot hva hpa
  · exact hstay
  · exact hstay
  · exact hstay
  · exact hstay
  · exact hstay
  rw [not_not] at hflags hva hpa
  rw [Bool.not_eq_false] at hroot
  obtain ⟨t₃, ht₃, hl₃, ho₃⟩ := vmmVerifyPageTableRoot_iff.mp hroot
  -- PML4 to PDPT
  rcases getOrCreateTable_cases h ht₃ vmmLevelPdpt hl₃ ho₃ (pml4Index va) flags with
    ⟨s₁, heq, hinv, hsame⟩ | ⟨pdpt, b₂, s₁, t₂, heq, hstep₂, hinv₁, ht₂, hl₂, ho₂⟩
  · simp only [heq]
    exact .inl ⟨s₁, rfl, hinv, hsame⟩
  simp only [heq]
  -- PDPT to PD
  rcases getOrCreateTable_cases hinv₁ ht₂ vmmLevelPd hl₂ ho₂ (pdptIndex va) flags with
    ⟨s₂, heq, hinv, hsame⟩ | ⟨pd, b₁, s₂, t₁, heq, hstep₁, hinv₂, ht₁, hl₁, ho₁⟩
  · simp only [heq]
    obtain ⟨hsame', hinv'⟩ := rollbackIf_undoes h hstep₂ hsame hinv
    exact .inl ⟨_, rfl, hinv', hsame'⟩
  simp only [heq]
  -- PD to PT
  rcases getOrCreateTable_cases hinv₂ ht₁ vmmLevelPt hl₁ ho₁ (pdIndex va) flags with
    ⟨s₃, heq, hinv, hsame⟩ | ⟨pt, b₀, s₃, t₀, heq, hstep₀, hinv₃, ht₀, hl₀, ho₀⟩
  · simp only [heq]
    obtain ⟨hsame', hinv'⟩ := rollbackIf_undoes hinv₁ hstep₁ hsame hinv
    obtain ⟨hsame'', hinv''⟩ := rollbackIf_undoes h hstep₂ hsame' hinv'
    exact .inl ⟨_, rfl, hinv'', hsame''⟩
  simp only [heq]
  by_cases hpresent : isPresent (s₃.memory pt (ptIndex va)) = true
  · rw [if_pos hpresent]
    obtain ⟨hsame, hinv⟩ := rollbackIf_undoes hinv₂ hstep₀ (.refl s₃) hinv₃
    obtain ⟨hsame', hinv'⟩ := rollbackIf_undoes hinv₁ hstep₁ hsame hinv
    obtain ⟨hsame'', hinv''⟩ := rollbackIf_undoes h hstep₂ hsame' hinv'
    exact .inl ⟨_, rfl, hinv'', hsame''⟩
  · rw [if_neg hpresent]
    have hempty : isPresent (t₀.entries (ptIndex va)) = false := by
      rw [memory_of_tables ht₀] at hpresent
      simpa using hpresent
    refine .inr ⟨_, rfl, ?_, hflags, ⟨t₃, ht₃, hl₃, ho₃⟩, hva, hpa, pdpt, pd, pt, b₂, b₁, b₀,
      s₁, s₂, s₃, t₀, hstep₂, hstep₁, hstep₀, hinv₁, hinv₂, hinv₃, ht₀, hl₀, ho₀, hempty, rfl⟩
    refine inv_write_leaf hinv₃ ht₀ (fun hnot => ?_) ?_ ?_
    · rw [isPresent_leafEntry] at hnot
      cases hnot
    · exact entryChild_of_not_present hempty
    · rw [hl₀]
      rfl

/-- **What every step of `vmm_map_page` keeps, the call keeps.**  `N` is what is known of a
table the call has created. -/
theorem vmmMapPage_rule {P : Paging → Prop} {N : Word → Prop} {pml4 flags : Word} (va pa : Word)
    (h : P s)
    (hcreate : ∀ (s : Paging) (parent : Word) (index : Fin 512) (level : ℕ), level < vmmLevelPml4 →
      P s → P (getOrCreateTable s parent index flags level pml4).2 ∧ ∀ c,
      (getOrCreateTable s parent index flags level pml4).1 = some (c, true) → N c)
    (hrollback : ∀ (s : Paging) (created : Bool) (parent : Word) (index : Fin 512) (c : Word),
      (created = true → N c) → P s → P (rollbackIf created s parent index c))
    (hwrite : ∀ (s : Paging) (p : Word) (index : Fin 512) (entry : Word), P s →
      P (s.write p index entry)) :
    P (vmmMapPage s pml4 va pa flags).2 := by
  have hstep : ∀ (s : Paging) (parent : Word) (index : Fin 512) (level : ℕ), level < vmmLevelPml4 →
      P s → (∃ s', getOrCreateTable s parent index flags level pml4 = (none, s') ∧ P s') ∨
        ∃ c created s', getOrCreateTable s parent index flags level pml4 = (some (c, created), s') ∧
          P s' ∧ (created = true → N c) := by
    intro s parent index level hlevel h
    obtain ⟨hkeeps, hnew⟩ := hcreate s parent index level hlevel h
    cases hcall : getOrCreateTable s parent index flags level pml4 with
    | mk child s' =>
        rw [hcall] at hkeeps hnew
        cases child with
        | none => exact .inl ⟨s', rfl, hkeeps⟩
        | some child => exact .inr ⟨child.1, child.2, s', rfl, hkeeps, fun hb => hnew _ (hb ▸ rfl)⟩
  unfold vmmMapPage
  split_ifs
  · exact h
  · exact h
  · exact h
  · exact h
  · exact h
  rcases hstep s pml4 (pml4Index va) vmmLevelPdpt (by simp) h with
    ⟨s₁, heq, h₁⟩ | ⟨pdpt, b₂, s₁, heq, h₁, hpdpt⟩
  · simp only [heq]
    exact h₁
  simp only [heq]
  rcases hstep s₁ pdpt (pdptIndex va) vmmLevelPd (by simp) h₁ with
    ⟨s₂, heq, h₂⟩ | ⟨pd, b₁, s₂, heq, h₂, hpd⟩
  · simp only [heq]
    exact hrollback _ _ _ _ _ hpdpt h₂
  simp only [heq]
  rcases hstep s₂ pd (pdIndex va) vmmLevelPt (by simp) h₂ with
    ⟨s₃, heq, h₃⟩ | ⟨pt, b₀, s₃, heq, h₃, hpt⟩
  · simp only [heq]
    exact hrollback _ _ _ _ _ hpdpt (hrollback _ _ _ _ _ hpd h₃)
  simp only [heq]
  split_ifs
  · exact hrollback _ _ _ _ _ hpdpt (hrollback _ _ _ _ _ hpd (hrollback _ _ _ _ _ hpt h₃))
  · exact hwrite _ _ _ _ h₃

end Batos
