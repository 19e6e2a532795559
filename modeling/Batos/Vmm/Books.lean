import Batos.Vmm.Run

/-!
# The books of the memory subsystem

The kernel root can be destroyed, and `kernel_pml4` then names a frame that may come back
as anything: a page table, a client's frame, another root.  `vmm_prepare_address_space`
still reads and writes it, so the shape of the page tables is not an invariant of all runs.
What survives is `Paging.Booked`: records in use name distinct frames that the PMM keeps
for them.

`Paging.Steady` follows the roots through an operation: the books stay in order, a PML4
stays a PML4 and a frame of a client stays one.  Every operation of `vmm.c` but the
destruction of a root is steady, in any state that is booked.  For the copies this rests
on one fact about what they leave when they fail, `releaseTree_grown`: discarding a copy
touches new tables only, because new tables lead to new tables (`Paging.Closed`).
-/

namespace Batos

open List
open Option (some)

variable {s s₁ : Paging} {c owner p d : Word} {level : ℕ} {t : Table} {v : Vmm}

/-! ## Steps that keep roots and foreign frames -/

/-- The address is that of a registered PML4. -/
def Paging.IsRoot (s : Paging) (p : Word) : Prop :=
  ∃ t, s.tables p = some t ∧ t.level = vmmLevelPml4

theorem Paging.not_isRoot_zero (s : Paging) : ¬ s.IsRoot 0 := by
  rintro ⟨t, ht, -⟩
  have hnone : s.tables 0 = none := tables_eq_none.mpr (if_pos rfl)
  rw [hnone] at ht
  cases ht

/-- The release of a table: only this table is gone. -/
theorem Paging.Booked.releases_only (h : s.Booked) (c : Word) :
    (releasePageTable s c).Booked ∧
      (∀ {p}, p ≠ c → s.IsRoot p → (releasePageTable s c).IsRoot p) ∧
      ∀ {q}, s.Foreign q → (releasePageTable s c).Foreign q := by
  cases ht : s.tables c with
  | none =>
      have hstay : releasePageTable s c = s := by
        rw [releasePageTable, tables_eq_none.mp ht]
      rw [hstay]
      exact ⟨h, fun _ hp => hp, fun hq => hq⟩
  | some t =>
      obtain ⟨htables, hpmm, -, -⟩ := releasePageTable_effect h ht
      have hother : ∀ q, q ≠ c → (releasePageTable s c).tables q = s.tables q := by
        intro q hq
        rw [htables, Tables.removeTable_of_ne hq]
      refine ⟨h.release ht, fun {p} hpc hp => ?_, fun {q} hq => ?_⟩
      · obtain ⟨u, hu, hl⟩ := hp
        exact ⟨u, (hother p hpc).trans hu, hl⟩
      · obtain ⟨haligned, hnone, hused⟩ := hq
        have hqc : q ≠ c := (ne_of_eq_none ht hnone).symm
        refine ⟨haligned, (hother q hqc).trans hnone, fun hfree => hused ?_⟩
        rw [hpmm] at hfree
        obtain ⟨hpos, hrange, hclear⟩ := hfree
        have hframe : frameOf q ≠ frameOf c := fun hf =>
          hqc (frameOf_inj haligned (h.frames ht).aligned hf)
        rw [Pmm.used_release, Bool.and_eq_false_iff] at hclear
        exact ⟨hpos, hrange, hclear.resolve_left (by simp [hframe])⟩

/-- The books stay in order; roots stay roots, and foreign frames foreign. -/
structure Paging.Steady (s s' : Paging) : Prop where
  booked : s'.Booked
  roots : ∀ {p}, s.IsRoot p → s'.IsRoot p
  foreign : ∀ {q}, s.Foreign q → s'.Foreign q

namespace Paging.Steady

variable {s s' s'' : Paging}

theorem refl (h : s.Booked) : s.Steady s := ⟨h, id, id⟩

theorem trans (h₁ : s.Steady s') (h₂ : s'.Steady s'') : s.Steady s'' :=
  ⟨h₂.booked, fun h => h₂.roots (h₁.roots h), fun h => h₂.foreign (h₁.foreign h)⟩

/-- What has no table has not been a root. -/
theorem not_root (h : s.Steady s') (hc : s'.tables c = none) : ¬ s.IsRoot c := by
  intro hroot
  obtain ⟨t, ht, -⟩ := h.roots hroot
  rw [hc] at ht
  cases ht

theorem of_same (h : s.Booked) (hsame : s.Same s') (hlive : s'.liveFrames = s.liveFrames) :
    s.Steady s' where
  booked := h.of_same hsame hlive
  roots := by
    rintro p ⟨t, ht, hl⟩
    exact ⟨t, (congrFun hsame.tables p).trans ht, hl⟩
  foreign := fun hq => (hsame.foreign hq).1

/-- A new table. -/
theorem of_allocates (h : s.Booked) (halloc : s.Allocates c level owner s')
    (hinstalled : s.pmm.frameBitmap ≠ 0) (hroot : level = vmmLevelPml4 → owner = c)
    (hnodup : s'.liveFrames.Nodup) (hnonzero : (0 : Word) ∉ s'.liveFrames) : s.Steady s' where
  booked := halloc.booked h hinstalled hroot hnodup hnonzero
  roots := by
    rintro p ⟨t, ht, hl⟩
    have hne : p ≠ c := ne_of_eq_none ht (h.tables_of_free halloc.free)
    exact ⟨t, (halloc.tables_of_ne hne).trans ht, hl⟩
  foreign := by
    rintro q ⟨haligned, hnone, hused⟩
    have hne : q ≠ c := by
      rintro rfl
      exact hused halloc.free
    refine ⟨haligned, (halloc.tables_of_ne hne).trans hnone, fun hfree => hused ?_⟩
    rw [halloc.pmm] at hfree
    obtain ⟨hpos, hrange, hclear⟩ := hfree
    rw [Pmm.used_reserve, Bool.or_eq_false_iff] at hclear
    exact ⟨hpos, hrange, hclear.2⟩

/-- New contents of the tables, whatever they are. -/
theorem of_memory (h : s.Booked) (memory : Word → Fin 512 → Word) :
    s.Steady { s with memory := memory } := by
  refine ⟨h.of_memory memory, ?_, ?_⟩
  · rintro q ⟨t, ht, hl⟩
    obtain ⟨t', ht', hl', -⟩ := tables_of_records { s with memory := memory } ht rfl
    exact ⟨t', ht', hl'.trans hl⟩
  · rintro q ⟨haligned, hnone, hused⟩
    exact ⟨haligned, tables_eq_none.mpr (tables_eq_none (s := s) |>.mp hnone), hused⟩

/-- A store, wherever it goes. -/
theorem of_write (h : s.Booked) (p : Word) (index : Fin 512) (entry : Word) :
    s.Steady (s.write p index entry) := .of_memory h _

/-- Stamps of a check. -/
theorem of_stamps (h : s.Booked) (hstamps : s.Stamps s') : s.Steady s' :=
  .of_same h hstamps.same hstamps.liveFrames

/-- The release of a table that has not been a root. -/
theorem release (h : s.Steady s') (hc : ¬ s.IsRoot c) :
    s.Steady (releasePageTable s' c) := by
  obtain ⟨hbooked, hroots, hforeign⟩ := h.booked.releases_only c
  refine ⟨hbooked, fun hp => hroots ?_ (h.roots hp), fun hq => hforeign (h.foreign hq)⟩
  rintro rfl
  exact hc hp

end Paging.Steady

/-! ## Mapping -/

section Map

variable {s s₁ : Paging}

/-- The child of an entry: it was there, or it is new and no root. -/
theorem getOrCreateTable_steady (h : s.Steady s₁) (parent : Word) (index : Fin 512) (flags : Word)
    (hlevel : level < vmmLevelPml4) (owner : Word) :
    s.Steady (getOrCreateTable s₁ parent index flags level owner).2 ∧
      ∀ c, (getOrCreateTable s₁ parent index flags level owner).1 = some (c, true) →
      ¬ s.IsRoot c := by
  unfold getOrCreateTable
  split_ifs with hpresent
  · refine ⟨h, fun c hc => ?_⟩
    obtain ⟨_, -, heq⟩ := Option.map_eq_some_iff.mp hc
    cases heq
  rcases allocatePageTable_outcome h.booked level owner hlevel.le
    (fun hl => absurd hl hlevel.ne) with
    ⟨s', heq, hsame, hrecords⟩ | ⟨c, s', heq, halloc, hinstalled, hnodup, hnonzero⟩
  · rw [heq]
    exact ⟨h.trans (.of_same h.booked hsame (liveFrames_congr hrecords)), nofun⟩
  · rw [heq]
    rw [if_neg hlevel.ne] at halloc
    have hstep : s₁.Steady s' := .of_allocates h.booked halloc hinstalled
      (fun hl => absurd hl hlevel.ne) hnodup hnonzero
    refine ⟨h.trans (hstep.trans (.of_write hstep.booked parent index _)), fun c' hc' => ?_⟩
    obtain rfl : c = c' := (Prod.mk.inj (some.inj hc')).1
    exact h.not_root (h.booked.tables_of_free halloc.free)

/-- The rollback of a new table. -/
theorem rollbackIf_steady (h : s.Steady s₁) {created : Bool} (parent : Word) (index : Fin 512)
    (hc : created = true → ¬ s.IsRoot c) : s.Steady (rollbackIf created s₁ parent index c) := by
  unfold rollbackIf rollbackPageTable
  split_ifs with hcreated
  · exact h
  · exact h
  · exact h
  · exact (h.trans (.of_write h.booked parent index 0)).release (hc hcreated)
  · exact h

/-- **`vmm_map_page` is steady**, in any state that is booked. -/
theorem vmmMapPage_steady (h : s.Booked) (pml4 va pa flags : Word) :
    s.Steady (vmmMapPage s pml4 va pa flags).2 :=
  vmmMapPage_rule va pa (.refl h)
    (fun _ parent index _ hlevel hs => getOrCreateTable_steady hs parent index flags hlevel pml4)
    (fun _ _ parent index _ hc hs => rollbackIf_steady hs parent index hc)
    fun _ p index entry hs => hs.trans (.of_write hs.booked p index entry)

/-- `vmm_unmap_page` clears an entry, at most. -/
theorem vmmUnmapPage_steady (h : s.Booked) (pml4 va : Word) :
    s.Steady (vmmUnmapPage s pml4 va).2 := by
  rcases vmmUnmapPage_page s pml4 va with
    ⟨heq, -⟩ | ⟨_, pt, t, -, -, -, -, -, -, -, -, -, heq⟩
  · rw [heq]
    exact .refl h
  · rw [heq]
    exact .of_write h pt _ 0

theorem mapKernelSections_steady (pml4 virtualBase physicalBase imageEnd : Word)
    (sections : List (Word × Word × Word)) (h : s.Booked) :
    s.Steady (mapKernelSections pml4 virtualBase physicalBase imageEnd sections s).2 :=
  mapKernelSections_induction
    (fun _ va pa flags hsteady => hsteady.trans (vmmMapPage_steady hsteady.booked pml4 va pa flags))
    virtualBase physicalBase imageEnd sections (.refl h)

end Map

/-! ## Discarding new tables -/

/-- All tables are still there, as they were. -/
structure Paging.Grown (s s' : Paging) : Prop where
  steady : s.Steady s'
  kept : ∀ {q t}, s.tables q = some t → s'.tables q = some t

namespace Paging.Grown

variable {s s' s'' : Paging} {p : Word}

theorem refl (h : s.Booked) : s.Grown s := ⟨.refl h, id⟩

theorem trans (h₁ : s.Grown s') (h₂ : s'.Grown s'') : s.Grown s'' :=
  ⟨h₁.steady.trans h₂.steady, fun h => h₂.kept (h₁.kept h)⟩

theorem of_same (h : s.Booked) (hsame : s.Same s') (hrecords : s'.records = s.records) :
    s.Grown s' :=
  ⟨.of_same h hsame (liveFrames_congr hrecords), fun ht => (congrFun hsame.tables _).trans ht⟩

/-- What is new now was not there before. -/
theorem of_allocates (h : s.Booked) (halloc : s.Allocates c level owner s')
    (hinstalled : s.pmm.frameBitmap ≠ 0) (hroot : level = vmmLevelPml4 → owner = c)
    (hnodup : s'.liveFrames.Nodup) (hnonzero : (0 : Word) ∉ s'.liveFrames) : s.Grown s' where
  steady := .of_allocates h halloc hinstalled hroot hnodup hnonzero
  kept := by
    intro q t ht
    have hne : q ≠ c := ne_of_eq_none ht (h.tables_of_free halloc.free)
    rw [halloc.tables_of_ne hne, ht]

theorem tables_eq_none (h : s.Grown s') (hp : s'.tables p = none) : s.tables p = none := by
  cases ht : s.tables p with
  | none => rfl
  | some t =>
      rw [h.kept ht] at hp
      cases hp

theorem not_root (hp : s.tables p = none) : ¬ s.IsRoot p := by
  rintro ⟨t, ht, -⟩
  rw [hp] at ht
  cases ht

/-- A store outside the old tables. -/
theorem write (h : s.Grown s') (hp : s.tables p = none) (index : Fin 512) (entry : Word) :
    s.Grown (s'.write p index entry) := by
  refine ⟨h.steady.trans (.of_write h.steady.booked p index entry), fun {q t} ht => ?_⟩
  have hne : q ≠ p := ne_of_eq_none ht hp
  rw [tables_write, Tables.writeEntry_of_ne hne]
  exact h.kept ht

/-- A release outside the old tables. -/
theorem release (h : s.Grown s') (hp : s.tables p = none) : s.Grown (releasePageTable s' p) := by
  refine ⟨h.steady.release (not_root hp), fun {q t} ht => ?_⟩
  have hne : q ≠ p := ne_of_eq_none ht hp
  cases hu : s'.tables p with
  | none =>
      rw [releasePageTable, Batos.tables_eq_none.mp hu]
      exact h.kept ht
  | some u =>
      rw [(releasePageTable_effect h.steady.booked hu).1, Tables.removeTable_of_ne hne]
      exact h.kept ht

end Paging.Grown

/-- Entries have only been cleared. -/
def Fewer (memory memory' : Word → Fin 512 → Word) : Prop :=
  ∀ q index, memory' q index = memory q index ∨ memory' q index = 0

section Fewer

variable {memory memory' memory'' : Word → Fin 512 → Word}

theorem Fewer.refl (memory : Word → Fin 512 → Word) : Fewer memory memory := fun _ _ => .inl rfl

theorem Fewer.trans (h₁ : Fewer memory memory') (h₂ : Fewer memory' memory'') :
    Fewer memory memory'' := by
  intro q index
  rcases h₂ q index with heq | hzero
  · rw [heq]
    exact h₁ q index
  · exact .inr hzero

/-- Fewer entries lead to fewer tables. -/
theorem Fewer.mem_treeNodes (h : Fewer memory memory') {n : ℕ × Word}
    (hn : n ∈ treeNodes memory' level p) : n ∈ treeNodes memory level p := by
  refine Unfolding.mem_of_kids_subset (fun q c hc => ?_) hn
  obtain ⟨index, hindex, hc⟩ := mem_filterMap.mp hc
  refine mem_filterMap.mpr ⟨index, hindex, ?_⟩
  rcases h q index with heq | hzero
  · rw [← heq]
    exact hc
  · rw [hzero] at hc
    cases hc

/-- Clearing an entry leaves fewer. -/
theorem fewer_write (s : Paging) (p : Word) (i : Fin 512) :
    Fewer s.memory (s.write p i 0).memory := by
  intro q index
  by_cases hq : q = p
  · subst hq
    by_cases hi : index = i
    · subst hi
      exact .inr (memory_write_self s q index 0)
    · left
      simp [Paging.write, hi]
  · exact .inl (congrFun (memory_write_of_ne hq i 0) index)

end Fewer

/-- **Discarding new tables** touches no old one. -/
theorem releaseTree_grown (skipZero : Bool) (level : ℕ) (h : s.Grown s₁)
    (hnew : ∀ n ∈ treeNodes s₁.memory level p, s.tables n.2 = none) :
    s.Grown (releaseTree skipZero level s₁ p) ∧
      Fewer s₁.memory (releaseTree skipZero level s₁ p).memory := by
  induction level generalizing s₁ p with
  | zero =>
      have hp : s.tables p = none := hnew _ (Unfolding.self_mem _ 0 p)
      rw [releaseTree]
      split_ifs
      · exact ⟨h, .refl _⟩
      · rw [memory_releasePageTable]
        exact ⟨h.release hp, .refl _⟩
  | succ level ih =>
      have hp : s.tables p = none := hnew _ (Unfolding.self_mem _ (level + 1) p)
      -- the loop, from any state with fewer entries
      have hloop : ∀ (indices : List (Fin 512)) (s₂ : Paging), s.Grown s₂ →
        Fewer s₁.memory s₂.memory →
          s.Grown (indices.foldl (releaseEntry (releaseTree skipZero level) p) s₂) ∧
            Fewer s₁.memory (indices.foldl (releaseEntry (releaseTree skipZero level) p)
            s₂).memory := by
        intro indices
        induction indices with
        | nil => exact fun s₂ hgrown hfewer => ⟨hgrown, hfewer⟩
        | cons index indices ihloop =>
            intro s₂ hgrown hfewer
            rw [foldl_cons]
            have hone : s.Grown (releaseEntry (releaseTree skipZero level) p s₂ index) ∧
                Fewer s₁.memory (releaseEntry (releaseTree skipZero level) p s₂ index).memory := by
              unfold releaseEntry
              dsimp only
              cases hpresent : isPresent (s₂.memory p index) with
              | false => exact ⟨hgrown, hfewer⟩
              | true =>
                  have hwritten := hgrown.write hp index 0
                  have hfewer' := hfewer.trans (fewer_write s₂ p index)
                  rw [if_neg (by simp)]
                  cases hhuge : isHuge (s₂.memory p index) with
                  | true => exact ⟨hwritten, hfewer'⟩
                  | false =>
                      rw [if_neg (by simp)]
                      obtain ⟨hchild, hfewer''⟩ := ih hwritten fun n hn => by
                        refine hnew n ?_
                        have hkid : entryAddress (s₂.memory p index) ∈
                            tableKids s₁.memory tableIndices p := by
                          refine mem_filterMap.mpr ⟨index, mem_tableIndices index, ?_⟩
                          rcases hfewer p index with heq | hzero
                          · rw [← heq]
                            simp [pointedTable, hpresent, hhuge]
                          · rw [hzero] at hpresent
                            cases hpresent
                        obtain ⟨l, q⟩ := n
                        exact Unfolding.mem_succ.mpr (.inr ⟨_, hkid, hfewer'.mem_treeNodes hn⟩)
                      exact ⟨hchild, hfewer'.trans hfewer''⟩
            exact ihloop _ hone.1 hone.2
      obtain ⟨hgrown, hfewer⟩ := hloop tableIndices s₁ h (.refl _)
      rw [releaseTree]
      split_ifs
      · exact ⟨h, .refl _⟩
      · rw [memory_releasePageTable]
        exact ⟨hgrown.release hp, hfewer⟩

/-! ## Copies -/

/-- New tables lead to new tables, one level down. -/
def Paging.Closed (s s' : Paging) : Prop :=
  ∀ ⦃q t⦄, s.tables q = none → s'.tables q = some t → ∀ ⦃index c⦄,
    entryChild t.level (t.entries index) = some c →
      s.tables c = none ∧ ∃ u, s'.tables c = some u ∧ t.level = u.level + 1

theorem entryChild_succ (level : ℕ) (entry : Word) :
    entryChild (level + 1) entry = pointedTable entry := by
  simp [entryChild, pointedTable]

namespace Paging.Closed

variable {s s₁ s₂ : Paging}

/-- The walk down from a new table meets new tables only. -/
theorem new_nodes (h : s.Closed s₁)
    (hkept : ∀ {q t}, s₁.tables q = some t → s₂.memory q = t.entries) {q : Word}
    (hq : s.tables q = none) (ht : s₁.tables q = some t) (hl : t.level = level) :
    ∀ n ∈ treeNodes s₂.memory level q, s.tables n.2 = none := by
  induction level generalizing q t with
  | zero =>
      intro n hn
      rw [mem_singleton.mp hn]
      exact hq
  | succ level ih =>
      rintro ⟨l, x⟩ hn
      rcases Unfolding.mem_succ.mp hn with ⟨-, rfl⟩ | ⟨c, hc, hx⟩
      · exact hq
      · obtain ⟨index, -, hc⟩ := mem_filterMap.mp hc
        rw [hkept ht, ← entryChild_succ level, ← hl] at hc
        obtain ⟨hnew, u, hu, hul⟩ := h hq ht hc
        exact ih hnew hu (by omega) _ hx

theorem trans (hg₁ : s.Grown s₁) (h₁ : s.Closed s₁) (hg₂ : s₁.Grown s₂) (h₂ : s₁.Closed s₂) :
    s.Closed s₂ := by
  intro q t hq ht index c hc
  cases ht₁ : s₁.tables q with
  | none =>
      obtain ⟨hnew, u, hu, hul⟩ := h₂ ht₁ ht hc
      exact ⟨hg₁.tables_eq_none hnew, u, hu, hul⟩
  | some t₁ =>
      obtain rfl := some.inj ((hg₂.kept ht₁).symm.trans ht)
      obtain ⟨hnew, u, hu, hul⟩ := h₁ hq ht₁ hc
      exact ⟨hnew, u, hg₂.kept hu, hul⟩

/-- A new table. -/
theorem of_allocates (halloc : s.Allocates c level owner s₁) : s.Closed s₁ := by
  intro q t hq ht index x hx
  rw [halloc.tables] at ht
  by_cases hqc : q = c
  · subst hqc
    rw [Tables.insertTable_self] at ht
    obtain rfl := some.inj ht
    have hnone : entryChild level 0 = none := entryChild_zero level
    rw [hnone] at hx
    cases hx
  · rw [Tables.insertTable_of_ne hqc, hq] at ht
    cases ht

/-- Storing into a table a leaf, or a pointer to a new table of the level below. -/
theorem write (h : s.Closed s₁) (ht : s₁.tables d = some t) {index : Fin 512} {entry : Word}
    (hentry : ∀ c, entryChild t.level entry = some c → s.tables c = none ∧ ∃ u, s₁.tables c =
      some u ∧ t.level = u.level + 1) :
    s.Closed (s₁.write d index entry) := by
  have hchild : ∀ {c : Word} {l : ℕ}, (s.tables c = none ∧ ∃ u, s₁.tables c = some u ∧
    l = u.level + 1) →
      s.tables c = none ∧ ∃ u, (s₁.write d index entry).tables c = some u ∧ l = u.level + 1 := by
    rintro c l ⟨hnew, u, hu, hul⟩
    obtain ⟨u', hu', hl', -⟩ := tables_of_records (s₁.write d index entry) hu rfl
    exact ⟨hnew, u', hu', by rw [hl']; exact hul⟩
  intro q t' hq ht' i c hc
  rw [tables_write] at ht'
  by_cases hqd : q = d
  · subst hqd
    rw [Tables.writeEntry_self ht] at ht'
    obtain rfl := some.inj ht'
    dsimp only at hc ⊢
    refine hchild ?_
    by_cases hi : i = index
    · subst hi
      rw [Function.update_self] at hc
      exact hentry c hc
    · rw [Function.update_of_ne hi] at hc
      exact h hq ht hc
  · rw [Tables.writeEntry_of_ne hqd] at ht'
    exact hchild (h hq ht' hc)

end Paging.Closed

/-- What a call that copies a table of this level does at least: the old tables stay as
they are, and what it returns is a new table that leads to new tables. -/
def BuildSpec (level : ℕ) (recur : Paging → Word → Option Word × Paging) : Prop :=
  ∀ s source, s.Booked → s.Grown (recur s source).2 ∧
    ∀ c, (recur s source).1 = some c → s.Closed (recur s source).2 ∧ s.tables c = none ∧
      ∃ u, (recur s source).2.tables c = some u ∧ u.level = level

/-- The loop over the entries of the source. -/
theorem copyEntries_grown {recur : Paging → Word → Option Word × Paging}
    (hrecur : ∀ l, level = l + 1 → BuildSpec l recur) (hd : s.tables d = none) (source : Word)
    (indices : List (Fin 512)) (h : s.Grown s₁) (hclosed : s.Closed s₁) (ht : s₁.tables d = some t)
    (hl : t.level = level) {loop : Bool × Paging}
    (hloop : copyEntries level recur source d indices s₁ = loop) :
    s.Grown loop.2 ∧ (∀ n ∈ treeNodes loop.2.memory level d, s.tables n.2 = none) ∧
      (loop.1 = true → s.Closed loop.2 ∧ ∃ u, loop.2.tables d = some u ∧ u.level = level) := by
  subst hloop
  induction indices generalizing s₁ t with
  | nil => exact ⟨h, hclosed.new_nodes memory_of_tables hd ht hl, fun _ => ⟨hclosed, t, ht, hl⟩⟩
  | cons index indices ih =>
      rw [copyEntries]
      cases hpresent : isPresent (s₁.memory source index) with
      | false =>
          rw [if_pos rfl]
          exact ih h hclosed ht hl
      | true =>
          rw [if_neg (by simp)]
          by_cases hleaf : level = vmmLevelPt ∨ isHuge (s₁.memory source index) = true
          · -- a leaf is copied as it is
            rw [if_pos hleaf]
            refine ih (h.write hd index _) (hclosed.write ht fun c hc => ?_)
              (t := { t with entries := Function.update t.entries index (s₁.memory source index) })
              ((tables_write s₁ d index _).symm ▸ Tables.writeEntry_self ht index _) hl
            obtain ⟨hne, -, hhuge, -⟩ := entryChild_eq_some.mp hc
            rcases hleaf with hpt | hhuge'
            · exact absurd (hl.trans hpt) hne
            · rw [hhuge'] at hhuge
              cases hhuge
          · rw [if_neg hleaf]
            rw [not_or] at hleaf
            obtain ⟨l, rfl⟩ := Nat.exists_eq_succ_of_ne_zero hleaf.1
            obtain ⟨hgrown, hsome⟩ := hrecur l rfl s₁ (entryAddress (s₁.memory source index))
              h.steady.booked
            cases hcall : recur s₁ (entryAddress (s₁.memory source index)) with
            | mk child s₂ =>
                rw [hcall] at hgrown hsome
                have hkept : ∀ {q u}, s₁.tables q = some u → s₂.memory q = u.entries := fun hu =>
                  memory_of_tables (hgrown.kept hu)
                cases child with
                | none =>
                    refine ⟨h.trans hgrown, hclosed.new_nodes hkept hd ht hl, fun hcomplete => ?_⟩
                    cases hcomplete
                | some c =>
                    obtain ⟨hclosed₂, hc, u, hu, hul⟩ := hsome c rfl
                    have ht₂ : s₂.tables d = some t := hgrown.kept ht
                    have haligned : FrameAligned c :=
                      (hgrown.steady.booked.frames hu).frameAligned hgrown.steady.booked.sound
                    refine ih ((h.trans hgrown).write hd index _)
                      ((hclosed.trans h hgrown hclosed₂).write ht₂ fun x hx => ?_)
                      (t := { t with
                        entries :=
                          Function.update t.entries index
                          (copiedEntry c (s₁.memory source index)) })
                      ((tables_write s₂ d index _).symm ▸ Tables.writeEntry_self ht₂ index _) hl
                    obtain ⟨-, -, -, haddr⟩ := entryChild_eq_some.mp hx
                    rw [entryAddress_copiedEntry haligned] at haddr
                    subst haddr
                    exact ⟨h.tables_eq_none hc, u, hu, by rw [hl, hul]⟩

/-- One level of a copy. -/
theorem CopyStep.build {recur : Word → Paging → Word → Option Word × Paging}
    {copy : Paging → Word → Option Word × Paging} (hstep : CopyStep level owner recur copy)
    (hrecur : ∀ l d, level = l + 1 → BuildSpec l (recur d)) : BuildSpec level copy := by
  intro s source h
  rcases hstep s source h with
    ⟨s', heq, hsame, hrecords⟩ | ⟨d, s₁, -, halloc, hinstalled, hnodup, hnonzero, heq⟩
  · rw [heq]
    exact ⟨.of_same h hsame hrecords, nofun⟩
  rw [heq]
  have hd : s.tables d = none := h.tables_of_free halloc.free
  obtain ⟨⟨complete, s₂⟩, hloop⟩ : ∃ loop,
      copyEntries level (recur d) source d tableIndices s₁ = loop := ⟨_, rfl⟩
  obtain ⟨hgrown, hnodes, hcomplete⟩ := copyEntries_grown (fun l hl => hrecur l d hl) hd source
    tableIndices (.of_allocates h halloc hinstalled (fun hl => if_pos hl) hnodup hnonzero)
    (.of_allocates halloc) halloc.tables_self rfl hloop
  rw [hloop]
  cases complete with
  | false => exact ⟨(releaseTree_grown true level hgrown hnodes).1, nofun⟩
  | true =>
      refine ⟨hgrown, fun c hc => ?_⟩
      obtain rfl := some.inj hc
      obtain ⟨hclosed₂, u, hu, hul⟩ := hcomplete rfl
      exact ⟨hclosed₂, hd, u, hu, hul⟩

/-- `clone_page_table` builds at every level. -/
theorem clonePageTable_build (level : ℕ) (hlevel : level ≤ vmmLevelPml4) (owner : Word)
    (hroot : level = vmmLevelPml4 → owner = 0) : BuildSpec level (clonePageTable level owner) :=
  (copies_rule (S := fun level _ => BuildSpec level) fun hstep _ => hstep.build).1 level
    hlevel owner hroot

theorem copyPageTableSubtree_build (level : ℕ) (hlevel : level ≤ vmmLevelPdpt) (owner : Word) :
    BuildSpec level (copyPageTableSubtree level owner) :=
  (copies_rule (S := fun level _ => BuildSpec level) fun hstep _ => hstep.build).2
    level hlevel owner

/-! ## Preparation -/

/-- What `vmm_prepare_address_space` has built so far, all of it new: a clone of the
current root, and the missing subtrees of the kernel root. -/
structure Sketch (s : Paging) (cloned : Word) (roots : Fin 512 → Word) (s₁ : Paging) : Prop where
  grown : s.Grown s₁
  closed : s.Closed s₁
  clone_new : s.tables cloned = none
  clone_root : s₁.IsRoot cloned
  root_new : ∀ index, roots index ≠ 0 → s.tables (roots index) = none ∧
    ∃ u, s₁.tables (roots index) = some u ∧ u.level = vmmLevelPdpt

section Sketch

variable {s s₁ s₂ : Paging} {cloned : Word} {roots : Fin 512 → Word}

/-- The rollback, also after a further copy has failed. -/
theorem Sketch.discardRoots_grown (h : Sketch s cloned roots s₁) (hgrown : s₁.Grown s₂) :
    s.Grown (discardRoots roots cloned s₂) := by
  have hkept : ∀ {q t}, s₁.tables q = some t → s₂.memory q = t.entries := fun ht =>
    memory_of_tables (hgrown.kept ht)
  -- one discarded tree, from any state that has lost entries only
  have hdiscard : ∀ {level : ℕ} {p : Word} {u : Table} {s₃ : Paging}, s.tables p = none →
      s₁.tables p = some u → u.level = level → s.Grown s₃ → Fewer s₂.memory s₃.memory →
      s.Grown (discardPageTableTree level s₃ p) ∧
        Fewer s₂.memory (discardPageTableTree level s₃ p).memory := by
    intro level p u s₃ hp hu hul hs₃ hfewer
    obtain ⟨hgrown', hfewer'⟩ := releaseTree_grown true level hs₃ fun n hn =>
      h.closed.new_nodes hkept hp hu hul n (hfewer.mem_treeNodes hn)
    exact ⟨hgrown', hfewer.trans hfewer'⟩
  have hloop : ∀ (indices : List (Fin 512)) (s₃ : Paging), s.Grown s₃ → Fewer s₂.memory s₃.memory →
      s.Grown (indices.foldl (fun s index =>
          if roots index = 0 then s else discardPageTableTree vmmLevelPdpt s (roots index)) s₃) ∧
        Fewer s₂.memory (indices.foldl (fun s index =>
          if roots index = 0 then s else discardPageTableTree vmmLevelPdpt s (roots index))
            s₃).memory := by
    intro indices
    induction indices with
    | nil => exact fun s₃ hs₃ hfewer => ⟨hs₃, hfewer⟩
    | cons index indices ih =>
        intro s₃ hs₃ hfewer
        rw [foldl_cons]
        by_cases hzero : roots index = 0
        · rw [if_pos hzero]
          exact ih s₃ hs₃ hfewer
        · rw [if_neg hzero]
          obtain ⟨hnew, u, hu, hul⟩ := h.root_new index hzero
          obtain ⟨hs₄, hfewer'⟩ := hdiscard hnew hu hul hs₃ hfewer
          exact ih _ hs₄ hfewer'
  obtain ⟨hs₃, hfewer⟩ := hloop tableIndices s₂ (h.grown.trans hgrown) (.refl _)
  obtain ⟨u, hu, hul⟩ := h.clone_root
  exact (hdiscard h.clone_new hu hul hs₃ hfewer).1

/-- The loop that builds the missing subtrees. -/
theorem buildRoots_sketch (kernel source : Word) (indices : List (Fin 512))
    (h : Sketch s cloned roots s₁) :
    s.Grown (buildRoots kernel source cloned indices roots s₁).2 := by
  induction indices generalizing roots s₁ with
  | nil => exact h.grown
  | cons index indices ih =>
      rw [buildRoots]
      have hbooked := h.grown.steady.booked
      cases hkernel : isPresent (s₁.memory kernel index) with
      | true => exact ih h
      | false =>
          rw [if_neg (by simp)]
          dsimp only
          cases hsource : isPresent (s₁.memory source index) with
          | false => exact ih h
          | true =>
              rw [if_neg (by simp)]
              cases hhuge : isHuge (s₁.memory source index) with
              | true => exact h.discardRoots_grown (.refl hbooked)
              | false =>
                  rw [if_neg (by simp)]
                  obtain ⟨hgrown, hsome⟩ := copyPageTableSubtree_build vmmLevelPdpt le_rfl kernel s₁
                    (entryAddress (s₁.memory source index)) hbooked
                  cases hcopy : copyPageTableSubtree vmmLevelPdpt kernel s₁
                      (entryAddress (s₁.memory source index)) with
                  | mk child s₂ =>
                      rw [hcopy] at hgrown hsome
                      cases child with
                      | none => exact h.discardRoots_grown hgrown
                      | some c =>
                          obtain ⟨hclosed, hc, u, hu, hul⟩ := hsome c rfl
                          obtain ⟨t, ht, htl⟩ := h.clone_root
                          refine ih ⟨h.grown.trans hgrown, h.closed.trans h.grown hgrown hclosed,
                            h.clone_new, ⟨t, hgrown.kept ht, htl⟩, fun i hi => ?_⟩
                          by_cases hii : i = index
                          · subst hii
                            rw [Function.update_self]
                            exact ⟨h.grown.tables_eq_none hc, u, hu, hul⟩
                          · rw [Function.update_of_ne hii] at hi ⊢
                            obtain ⟨hnew, u', hu', hul'⟩ := h.root_new i hi
                            exact ⟨hnew, u', hgrown.kept hu', hul'⟩

/-- Publishing copies is storing entries. -/
theorem publishRoots_steady (h : s.Booked) (kernel source : Word) (roots : Fin 512 → Word) :
    s.Steady (publishRoots kernel source roots s) := by
  unfold publishRoots
  generalize tableIndices = indices
  induction indices generalizing s with
  | nil => exact .refl h
  | cons index indices ih =>
      rw [foldl_cons]
      split_ifs
      · exact ih h
      · have hwrite := Paging.Steady.of_write h kernel index
          (copiedEntry (roots index) (s.memory source index))
        exact hwrite.trans (ih hwrite.booked)

end Sketch

/-- **Preparing is steady** whatever the kernel root has become, and changes the page
tables and `last_cloned_pml4` only. -/
theorem vmmPrepareAddressSpace_steady (h : v.paging.Booked) :
    ∃ paging last, (vmmPrepareAddressSpace v).2 =
      { v with paging := paging, lastClonedPml4 := last } ∧
      v.paging.Steady paging := by
  have hstay : ∀ {paging}, v.paging.Steady paging →
      ∃ paging' last, { v with paging := paging } =
      { v with paging := paging', lastClonedPml4 := last } ∧
        v.paging.Steady paging' := fun {paging} hsteady => ⟨paging, v.lastClonedPml4, rfl, hsteady⟩
  unfold vmmPrepareAddressSpace
  by_cases hkernel : v.kernelPml4 = 0
  · rw [if_pos hkernel]
    exact hstay (.refl h)
  rw [if_neg hkernel]
  dsimp only
  by_cases hcr3 : v.cr3 &&& addressMask = 0
  · rw [if_pos hcr3]
    exact hstay (.refl h)
  rw [if_neg hcr3]
  by_cases hsame : v.cr3 &&& addressMask = v.kernelPml4
  · rw [if_pos hsame]
    exact hstay (.refl h)
  rw [if_neg hsame]
  obtain ⟨hgrown, hsome⟩ := clonePageTable_build vmmLevelPml4 le_rfl 0 (fun _ => rfl) v.paging
    (v.cr3 &&& addressMask) h
  cases hclone : clonePageTable vmmLevelPml4 0 v.paging (v.cr3 &&& addressMask) with
  | mk result s₁ =>
      rw [hclone] at hgrown hsome
      cases result with
      | none => exact hstay hgrown.steady
      | some cloned =>
          obtain ⟨hclosed, hnew, hroot⟩ := hsome cloned rfl
          have hsketch : Sketch v.paging cloned (fun _ => 0) s₁ :=
            ⟨hgrown, hclosed, hnew, hroot, fun _ hne => absurd rfl hne⟩
          have hbuild := buildRoots_sketch v.kernelPml4 (v.cr3 &&& addressMask) tableIndices hsketch
          dsimp only
          cases hbuilt : buildRoots v.kernelPml4 (v.cr3 &&& addressMask)
            cloned tableIndices (fun _ => 0)
              s₁ with
          | mk result s₂ =>
              rw [hbuilt] at hbuild
              cases result with
              | none => exact hstay hbuild.steady
              | some roots =>
                  exact ⟨_, cloned, rfl, hbuild.steady.trans
                    (publishRoots_steady hbuild.steady.booked _ _ _)⟩

/-- A client takes a frame. -/
theorem Paging.Steady.of_reserve (h : s.Booked) (f : ℕ) :
    s.Steady { s with pmm := s.pmm.reserve f } := ⟨h.reserve f, id, fun hq => hq.reserve f⟩

/-! ## Creation and destruction -/

/-- The outcomes of `vmm_create_address_space` in a booked state. -/
theorem vmmCreateAddressSpace_steady (h : v.paging.Booked) :
    (∃ paging, vmmCreateAddressSpace v = (none, { v with paging := paging }) ∧
        v.paging.Steady paging) ∨
      ∃ root paging spaces, vmmCreateAddressSpace v =
          (some root, { v with paging := paging, addressSpaceRecords := spaces }) ∧
        v.paging.Steady paging ∧ v.paging.tables root = none ∧ paging.IsRoot root ∧
        v.Enrols root spaces := by
  rcases allocatePageTable_outcome h vmmLevelPml4 0 le_rfl (fun _ => rfl) with
    ⟨s', heq, hsame, hrecords⟩ | ⟨root, s₁, heq, halloc, hinstalled, hnodup, hnonzero⟩
  · rw [vmmCreateAddressSpace, heq]
    exact .inl ⟨s', rfl, .of_same h hsame (liveFrames_congr hrecords)⟩
  rw [if_pos rfl] at halloc
  have hsteady : v.paging.Steady s₁ :=
    .of_allocates h halloc hinstalled (fun _ => rfl) hnodup hnonzero
  have hnew : v.paging.tables root = none := h.tables_of_free halloc.free
  rcases vmmCreateAddressSpace_of_some heq with heq | ⟨spaces, henrols, heq⟩
  · exact .inl ⟨_, heq, hsteady.release (Paging.Grown.not_root hnew)⟩
  · exact .inr ⟨root, s₁, spaces, heq, hsteady, hnew, ⟨_, halloc.tables_self, rfl⟩, henrols⟩

/-- Everything but one root has been kept. -/
structure Paging.Drops (root : Word) (s s' : Paging) : Prop where
  booked : s'.Booked
  roots : ∀ {p}, p ≠ root → s.IsRoot p → s'.IsRoot p
  foreign : ∀ {q}, s.Foreign q → s'.Foreign q

section Drops

variable {s s' s'' : Paging} {root : Word}

/-- Releasing tables of which only one is a root. -/
theorem foldl_releasePageTable_drops (h : s.Drops root s') (order : List Word)
    (horder : ∀ p ∈ order, s.IsRoot p → p = root) :
    s.Drops root (order.foldl releasePageTable s') := by
  induction order generalizing s' with
  | nil => exact h
  | cons c order ih =>
      rw [foldl_cons]
      obtain ⟨hbooked, hroots, hforeign⟩ := h.booked.releases_only c
      refine ih ⟨hbooked, fun {p} hne hp => hroots ?_ (h.roots hne hp),
        fun hq => hforeign (h.foreign hq)⟩ fun p hmem => horder p (mem_cons_of_mem c hmem)
      rintro rfl
      exact hne (horder p mem_cons_self hp)

end Drops

/-- The outcomes of `vmm_destroy_address_space` in a booked state: a call that succeeds
takes one root away, which is not the active one. -/
theorem vmmDestroyAddressSpace_drops (h : v.paging.Booked) (root : Word) :
    (∃ paging epoch, vmmDestroyAddressSpace v root =
        (-1, { v with paging := paging, validationEpoch := epoch }) ∧ v.paging.Steady paging) ∨
      ∃ record paging epoch cloned, root ≠ v.activeAddressSpacePml4 ∧
        findAddressSpaceRecord v root = some record ∧ record.state ≠ .active ∧
        v.paging.Drops root paging ∧
        vmmDestroyAddressSpace v root =
          (0, { v.amendSpace root
              fun record => { record with state := .inactive, inUse := false } with
            paging := paging
            validationEpoch := epoch
            lastClonedPml4 := cloned }) := by
  rcases destroy_outcome v root with ⟨paging, epoch, heq, hstamps⟩ |
    ⟨record, paging, paging', epoch, -, hactive, hfind, hstate, htree, hstamps, hfrees, -, heq⟩
  · exact .inl ⟨paging, epoch, heq, .of_stamps h hstamps.stamps⟩
  · refine .inr ⟨record, paging', epoch, _, hactive, hfind, hstate, ?_, heq⟩
    obtain ⟨order, hperm, hreleased⟩ := hfrees.released
    have hsteady : v.paging.Steady paging := .of_stamps h hstamps.stamps
    have hdrops : v.paging.Drops root (order.foldl releasePageTable paging) := by
      refine foldl_releasePageTable_drops ⟨hsteady.booked, fun _ hp => hsteady.roots hp,
        hsteady.foreign⟩ order fun p hp hroot => ?_
      -- the tables below the root are of lower levels
      obtain ⟨⟨l, q⟩, hn, rfl⟩ := mem_map.mp (hperm.mem_iff.mp hp)
      obtain ⟨r, hr, -, hl, -⟩ := htree.registered l q hn
      obtain ⟨t, ht, htl⟩ := hroot
      obtain ⟨r', hr', hl', -⟩ := tables_eq_some.mp ht
      obtain rfl := some.inj (hr.symm.trans hr')
      have htop : l = vmmLevelPml4 := hl.symm.trans (hl'.trans htl)
      subst htop
      exact Unfolding.eq_of_mem_top hn
    have hmemory := Paging.Steady.of_memory hdrops.booked paging'.memory
    rw [← hreleased] at hmemory
    exact ⟨hmemory.booked, fun hne hp => hmemory.roots (hdrops.roots hne hp),
      fun hq => hmemory.foreign (hdrops.foreign hq)⟩

end Batos
