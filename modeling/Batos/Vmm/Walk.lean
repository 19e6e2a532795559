import Batos.Vmm.Map

/-!
# What a virtual address means

`vmm_translate` and `vmm_inspect_mapping` perform the same walk and differ in what
they report about the leaf.  `Tables.walk` is that walk, as a recursion over the
levels: it checks the record of each table it enters, as the source does, and
returns the leaf entry with its level.  Everything about translations is proved
for the walk, and transferred by `vmmTranslate_eq` and `vmmInspectMapping_eq`.

Three facts about the walk carry the later results.  It depends only on tables of
its own root (`walk_congr`); creating a table changes no walk (`walk_creates`);
and a store into a page table changes exactly the walks whose path leads to that
entry (`walk_writeLeaf`), which for canonical addresses are those of one page.
-/

namespace Batos

open Function Option

variable {index : Fin 512} {entry pt root va : Word} {T' : Tables} {loose : Set Word} {u : Table}
  {s s' : Paging}

namespace Tables

/-- The table at `p`, if its record has this level and owner. -/
def verified (T : Tables) (level : ℕ) (owner p : Word) : Option Table :=
  (T p).filter fun t => t.level == level && t.owner == owner

/-- The leaf a virtual address leads to, with its level.  A huge PML4 entry is not
a leaf. -/
def walk (T : Tables) (owner : Word) : (level : ℕ) → (p va : Word) → Option (ℕ × Word)
  | 0, p, va =>
      (T.verified 0 owner p).bind fun t =>
        let entry := t.entries (levelIndex 0 va)
        if isPresent entry = false then none else some (0, entry)
  | level + 1, p, va =>
      (T.verified (level + 1) owner p).bind fun t =>
        let entry := t.entries (levelIndex (level + 1) va)
        if isPresent entry = false then none
        else if isHuge entry then
          if level + 1 = vmmLevelPml4 then none else some (level + 1, entry)
        else T.walk owner level (entryAddress entry) va

/-- The walk from a root. -/
def lookup (T : Tables) (root va : Word) : Option (ℕ × Word) := T.walk root vmmLevelPml4 root va

/-- The indices a walk uses above the page table. -/
def path : (level : ℕ) → (va : Word) → List (Fin 512)
  | 0, _ => []
  | level + 1, va => levelIndex (level + 1) va :: path level va

@[simp] theorem length_path (level : ℕ) (va : Word) : (path level va).length = level := by
  induction level with
  | zero => rfl
  | succ level ih => rw [path, List.length_cons, ih]

variable {T : Tables} {p va owner : Word} {t : Table} {level : ℕ}

theorem verified_eq_some :
    T.verified level owner p = some t ↔ T p = some t ∧ t.level = level ∧ t.owner = owner := by
  unfold verified
  rw [filter_eq_some_iff]
  simp

theorem verified_eq_none (h : ∀ t, T p = some t → t.level = level → t.owner ≠ owner) :
    T.verified level owner p = none := by
  cases hv : T.verified level owner p with
  | none => rfl
  | some t =>
      obtain ⟨ht, hl, ho⟩ := verified_eq_some.mp hv
      exact absurd ho (h t ht hl)

theorem verified_writeEntry_eq_none {q : Word} :
    (T.writeEntry q index entry).verified level owner p = none ↔
      T.verified level owner p = none := by
  unfold verified writeEntry
  by_cases hpq : p = q
  · subst hpq
    rw [update_self]
    cases T p <;> simp [Option.filter]
  · rw [update_of_ne hpq]

theorem walk_of_not_verified (h : T.verified level owner p = none) (va : Word) :
    T.walk owner level p va = none := by
  cases level with
  | zero =>
      rw [walk, h]
      rfl
  | succ level =>
      rw [walk, h]
      rfl

theorem walk_zero (ht : T p = some t) (hl : t.level = 0) (ho : t.owner = owner) (va : Word) :
    T.walk owner 0 p va =
      if isPresent (t.entries (levelIndex 0 va)) = false then none
      else some (0, t.entries (levelIndex 0 va)) := by
  unfold walk
  rw [verified_eq_some.mpr ⟨ht, hl, ho⟩]
  rfl

theorem walk_succ (ht : T p = some t) (hl : t.level = level + 1) (ho : t.owner = owner)
    (va : Word) :
    T.walk owner (level + 1) p va =
      if isPresent (t.entries (levelIndex (level + 1) va)) = false then none
      else if isHuge (t.entries (levelIndex (level + 1) va)) then
        if level + 1 = vmmLevelPml4 then none
        else some (level + 1, t.entries (levelIndex (level + 1) va))
      else T.walk owner level (entryAddress (t.entries (levelIndex (level + 1) va))) va := by
  rw [walk, verified_eq_some.mpr ⟨ht, hl, ho⟩]
  rfl

theorem descend_succ (ht : T p = some t) (level : ℕ) (va : Word) :
    T.forest.descend (path (level + 1) va) p =
      (entryChild t.level (t.entries (levelIndex (level + 1) va))).bind
        (T.forest.descend (path level va)) := by
  rw [path, Forest.descend, forest_edge ht]

/-- Two walks through tables with the same entry here, and the same continuation
below, agree. -/
theorem walk_succ_congr {t' : Table} {p' : Word} (ht : T p = some t) (hl : t.level = level + 1)
    (ho : t.owner = owner) (ht' : T' p' = some t') (hl' : t'.level = level + 1)
    (ho' : t'.owner = owner)
    (hentry : t'.entries (levelIndex (level + 1) va) = t.entries (levelIndex (level + 1) va))
    (hbelow : ∀ c, entryChild t.level (t.entries (levelIndex (level + 1) va)) = some c →
      T'.walk owner level c va = T.walk owner level c va) :
    T'.walk owner (level + 1) p' va = T.walk owner (level + 1) p va := by
  rw [walk_succ ht hl ho, walk_succ ht' hl' ho', hentry]
  split_ifs with hpresent hhuge htop
  · rfl
  · rfl
  · rfl
  · refine hbelow _ (entryChild_eq_some.mpr ⟨by omega, ?_, ?_, rfl⟩)
    · simpa using hpresent
    · simpa using hhuge

/-- In a forest, the child of a table is a table one level down with its owner. -/
theorem child_of_wf (hwf : T.forest.Wf vmmLevelPml4 loose) (ht : T p = some t) {c : Word}
    (hc : entryChild t.level (t.entries index) = some c) :
    ∃ u, T c = some u ∧ t.level = u.level + 1 ∧ u.owner = t.owner := by
  have hedge : T.forest.edge p index = some c := by
    rw [forest_edge ht]
    exact hc
  obtain ⟨l, o, hpi, hci⟩ := hwf.edge_info hedge
  rw [forest_info ht] at hpi
  obtain ⟨hl, ho⟩ := Prod.mk.inj (some.inj hpi)
  obtain ⟨u, hu, hul, huo⟩ := exists_of_forest_info hci
  exact ⟨u, hu, by omega, by rw [huo, ho]⟩

/-- **A walk depends only on the tables of its owner.** -/
theorem walk_congr (hwf : T.forest.Wf vmmLevelPml4 loose)
    (hkeep : ∀ q u, T q = some u → u.owner = owner → T' q = some u) (ht : T p = some t)
    (hl : t.level = level) (ho : t.owner = owner) :
    T'.walk owner level p va = T.walk owner level p va := by
  induction level generalizing p t with
  | zero => rw [walk_zero ht hl ho, walk_zero (hkeep p t ht ho) hl ho]
  | succ level ih =>
      refine walk_succ_congr ht hl ho (hkeep p t ht ho) hl ho rfl fun c hc => ?_
      obtain ⟨u, hu, hul, huo⟩ := child_of_wf hwf ht hc
      exact ih hu (by omega) (huo.trans ho)

/-- The walk of an empty table finds nothing. -/
theorem walk_empty (ht : T p = some ⟨level, owner, fun _ => 0⟩) (va : Word) :
    T.walk owner level p va = none := by
  cases level with
  | zero =>
      rw [walk_zero ht rfl rfl]
      exact if_pos isPresent_zero
  | succ level =>
      rw [walk_succ ht rfl rfl]
      exact if_pos isPresent_zero

/-! ## Creating a table -/

section Creates

variable {parent c flags : Word} {index : Fin 512} {childLevel : ℕ} {childOwner : Word} {u : Table}
  {loose : Set Word} (hwf : T.forest.Wf vmmLevelPml4 loose) (hu : T parent = some u)
  (hempty : isPresent (u.entries index) = false) (hlevel : u.level = childLevel + 1)
  (howner : u.owner = childOwner) (hfresh : T c = none) (haligned : FrameAligned c)

include hwf hu hempty hlevel howner hfresh haligned

/-- **Creating a table changes no walk**: where there was no entry there is now a
table without entries. -/
theorem walk_creates (ht : T p = some t) (hl : t.level = level) (ho : t.owner = owner) :
    ((T.insertTable c childLevel childOwner).writeEntry parent index (tableEntry c flags)).walk
        owner level p va = T.walk owner level p va := by
  set T' := (T.insertTable c childLevel childOwner).writeEntry parent index (tableEntry c flags)
  have hcp : parent ≠ c := ne_of_eq_none hu hfresh
  have hparent : T' parent =
      some { u with entries := update u.entries index (tableEntry c flags) } := by
    refine writeEntry_self ?_ _ _
    rw [insertTable_of_ne hcp]
    exact hu
  have hother : ∀ q, q ≠ parent → q ≠ c → T' q = T q := fun q hqp hqc =>
    (writeEntry_of_ne hqp _ _).trans (insertTable_of_ne hqc _ _)
  induction level generalizing p t with
  | zero =>
      have hpp : p ≠ parent := by
        rintro rfl
        obtain rfl := some.inj (ht.symm.trans hu)
        omega
      have hpc : p ≠ c := ne_of_eq_none ht hfresh
      rw [walk_zero ht hl ho, walk_zero ((hother p hpp hpc).trans ht) hl ho]
  | succ level ih =>
      have hpc : p ≠ c := ne_of_eq_none ht hfresh
      have hbelow : ∀ q, entryChild t.level (t.entries (levelIndex (level + 1) va)) = some q →
          T'.walk owner level q va = T.walk owner level q va := by
        intro q hq
        obtain ⟨v, hv, hvl, hvo⟩ := child_of_wf hwf ht hq
        exact ih hv (by omega) (hvo.trans ho)
      by_cases hpp : p = parent
      · subst hpp
        obtain rfl := some.inj (ht.symm.trans hu)
        by_cases hindex : levelIndex (level + 1) va = index
        · -- the walk now enters the new table, where it used to stop
          have hnew : T'.walk owner level c va = none := by
            have hctab : T' c = some ⟨childLevel, childOwner, fun _ => 0⟩ :=
              (writeEntry_of_ne hcp.symm _ _).trans (insertTable_self _ _ _ _)
            obtain rfl : childLevel = level := by omega
            obtain rfl : childOwner = owner := howner.symm.trans ho
            exact walk_empty hctab va
          rw [walk_succ ht hl ho, if_pos (by rw [hindex]; exact hempty)]
          rw [walk_succ hparent hl ho]
          simp only [hindex, update_self, isPresent_tableEntry,
            isHuge_tableEntry haligned, entryAddress_tableEntry haligned, hnew]
          simp
        · refine walk_succ_congr ht hl ho hparent hl ho ?_ hbelow
          exact update_of_ne hindex _ _
      · exact walk_succ_congr ht hl ho ((hother p hpp hpc).trans ht) hl ho rfl hbelow

/-- Creating a table below the top level changes no lookup. -/
theorem lookup_creates (hbelow : childLevel < vmmLevelPml4) (root va : Word) :
    ((T.insertTable c childLevel childOwner).writeEntry parent index (tableEntry c flags)).lookup
        root va = T.lookup root va := by
  unfold lookup
  cases hv : T.verified vmmLevelPml4 root root with
  | some t =>
      obtain ⟨ht, hl, ho⟩ := verified_eq_some.mp hv
      exact walk_creates hwf hu hempty hlevel howner hfresh haligned ht hl ho
  | none =>
      have hv' : ((T.insertTable c childLevel childOwner).writeEntry parent index
          (tableEntry c flags)).verified vmmLevelPml4 root root = none := by
        rw [verified_writeEntry_eq_none]
        refine verified_eq_none fun t ht hl ho => ?_
        by_cases hrc : root = c
        · subst hrc
          rw [insertTable_self] at ht
          obtain rfl := some.inj ht
          exact absurd hl hbelow.ne
        · rw [insertTable_of_ne hrc] at ht
          rw [verified_eq_some.mpr ⟨ht, hl, ho⟩] at hv
          cases hv
      rw [walk_of_not_verified hv, walk_of_not_verified hv']

end Creates

/-! ## Storing into a page table -/

/-- What a walk finds at a leaf entry of a page table. -/
def leafOf (entry : Word) : Option (ℕ × Word) :=
  if isPresent entry = false then none else some (0, entry)

/-- **A store into a page table changes the walks that end there**, and no other. -/
theorem walk_writeLeaf (hwf : T.forest.Wf vmmLevelPml4 loose) (hu : T pt = some u)
    (hleaf : u.level = 0) (index : Fin 512) (entry : Word) (ht : T p = some t)
    (hl : t.level = level) (ho : t.owner = owner) :
    (T.writeEntry pt index entry).walk owner level p va =
      if T.forest.descend (path level va) p = some pt ∧ levelIndex 0 va = index then leafOf entry
      else T.walk owner level p va := by
  induction level generalizing p t with
  | zero =>
      have hdesc : T.forest.descend (path 0 va) p = some p := rfl
      rw [hdesc]
      by_cases hp : p = pt
      · subst hp
        obtain rfl := some.inj (ht.symm.trans hu)
        by_cases hindex : levelIndex 0 va = index
        · have hhit : some p = some p ∧ levelIndex 0 va = index := ⟨rfl, hindex⟩
          rw [if_pos hhit, walk_zero (writeEntry_self hu index entry) hl ho, hindex]
          simp only [update_self]
          rfl
        · have hmiss : ¬ (some p = some p ∧ levelIndex 0 va = index) := fun hand => hindex hand.2
          rw [if_neg hmiss, walk_zero ht hl ho, walk_zero (writeEntry_self hu index entry) hl ho]
          simp only [update_of_ne hindex]
      · have hmiss : ¬ (some p = some pt ∧ levelIndex 0 va = index) := fun hand =>
          hp (some.inj hand.1)
        rw [if_neg hmiss, walk_zero ht hl ho, walk_zero ((writeEntry_of_ne hp _ _).trans ht) hl ho]
  | succ level ih =>
      have hp : p ≠ pt := by
        rintro rfl
        obtain rfl := some.inj (ht.symm.trans hu)
        omega
      have ht' : T.writeEntry pt index entry p = some t := (writeEntry_of_ne hp _ _).trans ht
      rw [descend_succ ht]
      cases hc : entryChild t.level (t.entries (levelIndex (level + 1) va)) with
      | none =>
          rw [if_neg (by simp)]
          refine walk_succ_congr ht hl ho ht' hl ho rfl fun c hsome => ?_
          rw [hc] at hsome
          cases hsome
      | some c =>
          obtain ⟨v, hv, hvl, hvo⟩ := child_of_wf hwf ht hc
          obtain ⟨-, hpresent, hhuge, haddr⟩ := entryChild_eq_some.mp hc
          rw [bind_some, walk_succ ht hl ho, walk_succ ht' hl ho, hpresent, hhuge, haddr]
          simp only [Bool.true_eq_false, if_false, Bool.false_eq_true]
          exact ih hv (by omega) (hvo.trans ho)

/-- **A store into a page table is not seen through another index**, whatever the shape
of the tables. -/
theorem walk_writeLeaf_of_ne (hu : T pt = some u) (hleaf : u.level = 0)
    (hne : levelIndex 0 va ≠ index) (entry : Word) (owner : Word) (level : ℕ) (p : Word) :
    (T.writeEntry pt index entry).walk owner level p va = T.walk owner level p va := by
  induction level generalizing p with
  | zero =>
      cases hv : T.verified 0 owner p with
      | none =>
          rw [walk_of_not_verified hv, walk_of_not_verified (verified_writeEntry_eq_none.mpr hv)]
      | some t =>
          obtain ⟨ht, hl, ho⟩ := verified_eq_some.mp hv
          by_cases hp : p = pt
          · subst hp
            rw [walk_zero ht hl ho, walk_zero (writeEntry_self ht index entry) hl ho]
            simp only [update_of_ne hne]
          · rw [walk_zero ht hl ho, walk_zero ((writeEntry_of_ne hp _ _).trans ht) hl ho]
  | succ level ih =>
      cases hv : T.verified (level + 1) owner p with
      | none =>
          rw [walk_of_not_verified hv, walk_of_not_verified (verified_writeEntry_eq_none.mpr hv)]
      | some t =>
          obtain ⟨ht, hl, ho⟩ := verified_eq_some.mp hv
          -- a page table is not a table of a higher level
          have hp : p ≠ pt := by
            rintro rfl
            obtain rfl := some.inj (hu.symm.trans ht)
            omega
          exact walk_succ_congr ht hl ho ((writeEntry_of_ne hp _ _).trans ht)
            hl ho rfl fun c _ => ih c

end Tables

/-! ## The walks of the source -/

/-- Choose by the level of a leaf. -/
def onLeaf {α : Type} (onPdpte onPde onPte : Word → α) : ℕ × Word → α
  | (0, entry) => onPte entry
  | (1, entry) => onPde entry
  | (_, entry) => onPdpte entry

/-- The checked child of a present non-huge entry. -/
theorem verifyExistingChildTable_eq_verified (s : Paging) (hpresent : isPresent entry = true)
    (hhuge : isHuge entry = false) (level : ℕ) (owner : Word) :
    verifyExistingChildTable s entry level owner =
      (s.tables.verified level owner (entryAddress entry)).map fun _ => entryAddress entry := by
  unfold verifyExistingChildTable
  rw [if_neg (by rw [hpresent]; decide), if_neg (by rw [hhuge]; decide)]
  cases hv : s.tables.verified level owner (entryAddress entry) with
  | some t =>
      rw [if_pos (verifyPageTableRecord_iff.mpr ⟨t, Tables.verified_eq_some.mp hv⟩), map_some]
  | none =>
      refine if_neg fun hverify => ?_
      obtain ⟨t, ht⟩ := verifyPageTableRecord_iff.mp hverify
      rw [Tables.verified_eq_some.mpr ht] at hv
      cases hv

theorem tables_zero (s : Paging) : s.tables 0 = none := by
  rw [tables_eq_none]
  exact if_pos rfl

/-- One level of the source's walk: read the entry, report a huge leaf, or check the
child and go on with its contents. -/
theorem walk_level {α : Type} {p owner : Word} {t : Table} {level : ℕ} (ht : s.tables p = some t)
    (hl : t.level = level + 1) (ho : t.owner = owner) (va : Word) (onHuge : Word → Option α)
    {below : Word → Option α} {g : ℕ × Word → α}
    (hhuge : ∀ entry, onHuge entry = (if level + 1 = vmmLevelPml4 then
      none else some (level + 1, entry)).map g)
    (hbelow : ∀ c u, s.tables c = some u → u.level = level → u.owner = owner →
      below c = (s.tables.walk owner level c va).map g) :
    (if isPresent (s.memory p (levelIndex (level + 1) va)) = false then none
      else if isHuge (s.memory p (levelIndex (level + 1) va)) then
        onHuge (s.memory p (levelIndex (level + 1) va))
      else
        match verifyExistingChildTable s (s.memory p (levelIndex (level + 1) va)) level owner with
        | none => none
        | some c => below c) = (s.tables.walk owner (level + 1) p va).map g := by
  rw [Tables.walk_succ ht hl ho, memory_of_tables ht]
  set entry := t.entries (levelIndex (level + 1) va)
  by_cases hpresent : isPresent entry = false
  · rw [if_pos hpresent, if_pos hpresent]
    rfl
  · rw [if_neg hpresent, if_neg hpresent]
    by_cases hleaf : isHuge entry = true
    · rw [if_pos hleaf, if_pos hleaf]
      exact hhuge entry
    · rw [if_neg hleaf, if_neg hleaf,
        verifyExistingChildTable_eq_verified s (by simpa using hpresent)
        (by simpa using hleaf)]
      cases hv : s.tables.verified level owner (entryAddress entry) with
      | none =>
          rw [Tables.walk_of_not_verified hv]
          rfl
      | some u =>
          obtain ⟨hu, hul, huo⟩ := Tables.verified_eq_some.mp hv
          exact hbelow _ u hu hul huo

/-- **The source's walk is the walk of the table map.** -/
theorem walkPageTables_eq {α : Type} (s : Paging) (root va : Word)
    (onPdpte onPde onPte : Word → α) :
    walkPageTables s root va onPdpte onPde onPte =
      (s.tables.lookup root va).map (onLeaf onPdpte onPde onPte) := by
  unfold walkPageTables Tables.lookup
  cases hv : s.tables.verified vmmLevelPml4 root root with
  | none =>
      rw [Tables.walk_of_not_verified hv]
      have hroot : vmmVerifyPageTableRoot s root = false := by
        rw [Bool.eq_false_iff]
        intro hroot
        obtain ⟨t, ht⟩ := vmmVerifyPageTableRoot_iff.mp hroot
        rw [Tables.verified_eq_some.mpr ht] at hv
        cases hv
      rw [if_pos hroot, ite_self]
      rfl
  | some t =>
      obtain ⟨ht, hl, ho⟩ := Tables.verified_eq_some.mp hv
      have hne : root ≠ 0 := ne_of_eq_none ht (tables_zero _)
      have hroot := vmmVerifyPageTableRoot_iff.mpr ⟨t, ht, hl, ho⟩
      rw [if_neg hne, if_neg (by rw [hroot]; decide)]
      refine walk_level ht hl ho va (fun _ => none) (fun _ => rfl) fun pdpt t₂ ht₂ hl₂ ho₂ => ?_
      refine walk_level ht₂ hl₂ ho₂ va (fun pdpte => some (onPdpte pdpte)) (fun _ => rfl)
        fun pd t₁ ht₁ hl₁ ho₁ => ?_
      refine walk_level ht₁ hl₁ ho₁ va (fun pde => some (onPde pde)) (fun _ => rfl)
        fun pt t₀ ht₀ hl₀ ho₀ => ?_
      rw [Tables.walk_zero ht₀ hl₀ ho₀, memory_of_tables ht₀]
      change (if isPresent (t₀.entries (levelIndex 0 va)) = false then none else _) = _
      split_ifs with hpresent
      · rfl
      · rfl

/-- Translations agree where lookups do. -/
theorem vmmTranslate_congr (h : s'.tables.lookup root va = s.tables.lookup root va) :
    vmmTranslate s' root va = vmmTranslate s root va := by
  unfold vmmTranslate
  rw [walkPageTables_eq, walkPageTables_eq, h]

theorem vmmInspectMapping_congr (h : s'.tables.lookup root va = s.tables.lookup root va) :
    vmmInspectMapping s' root va = vmmInspectMapping s root va := by
  unfold vmmInspectMapping
  rw [walkPageTables_eq, walkPageTables_eq, h]

theorem vmmTranslate_isSome :
    (vmmTranslate s root va).isSome = (s.tables.lookup root va).isSome := by
  unfold vmmTranslate
  rw [walkPageTables_eq, isSome_map]

/-- A page leaf translates to its frame and the page offset. -/
theorem vmmTranslate_of_page (h : s.tables.lookup root va = some (0, entry)) :
    vmmTranslate s root va = some (entryAddress entry ||| (va &&& 0xFFF)) := by
  unfold vmmTranslate
  rw [walkPageTables_eq, h]
  rfl

end Batos
