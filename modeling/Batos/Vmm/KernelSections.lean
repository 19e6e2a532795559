import Batos.Vmm.PageMap
import Batos.Vmm.Rights
import Batos.Vmm.Spaces

/-!
# Mapping the sections of the kernel image

`map_kernel_section` maps the pages of one section, one `vmm_map_page` each, into a root that was
created for the purpose.  Two things are said of it, and of the five sections in a row.

* Whatever becomes of it, the tables that were there before are as they were, all that is new hangs
  from the new root, and above its page tables every entry is a writable pointer to a table
  (`Paging.Hosts`).  This makes it possible to take the whole tree away again.
* If it succeeds, each page of the section leads to a leaf with the physical address of the page and
  the flags of the section, no address leads elsewhere than before otherwise, and no page had been
  mapped (`Paging.Gains`).  Sections that meet in a page do not succeed.

The pages of a section are those that have a byte of it: its start is rounded down, its end up.
-/

namespace Batos

open List
open BitVec (le_def not_lt toNat_add)
open Option (some)

variable {parent flags owner c pt p va leaf : Word} {index : Fin 512} {level : ℕ} {b : Bool}
  {loose : Set Word} {t : Table}

/-! ## Entries above the page tables -/

/-- Every present entry above the page tables of `root` is a writable pointer to a table. -/
def Paging.Plain (s : Paging) (root : Word) : Prop :=
  ∀ ⦃p t i⦄, s.tables p = some t → t.owner = root → t.level ≠ 0 → isPresent (t.entries i) = true →
    isHuge (t.entries i) = false ∧ hasFlag vmmWritable (t.entries i) = true

namespace Paging.Plain

variable {s s' : Paging} {root : Word}

theorem congr (h : s.Plain root) (htables : s'.tables = s.tables) : s'.Plain root := by
  intro p t i ht
  rw [htables] at ht
  exact h ht

/-- An empty root has no table below it. -/
theorem of_empty (h : s.Inv ∅) (hroot : s.tables root = some ⟨vmmLevelPml4, root, fun _ => 0⟩) :
    s.Plain root := by
  intro p t i ht howner hlevel hpresent
  have hdesc := (h.wf.desc_owner (Tables.forest_info ht)).2
  rw [howner] at hdesc
  rcases Relation.ReflTransGen.cases_head hdesc with rfl | ⟨c, ⟨j, hedge⟩, -⟩
  · obtain rfl := some.inj (hroot.symm.trans ht)
    rw [show isPresent (0 : Word) = false from isPresent_zero] at hpresent
    cases hpresent
  · rw [Tables.forest_edge hroot] at hedge
    exact absurd hedge (by simp)

/-- The entry of a created table is writable. -/
theorem childStep (h : s.Plain root) (hstep : s.ChildStep parent index flags level owner b c s') :
    s'.Plain root := by
  cases hstep with
  | existing edge => exact h
  | created table parentLevel empty creates =>
      intro p t i ht howner hlevel hpresent
      rw [creates.tables] at ht
      have hother : ∀ u, s.tables.insertTable c level owner p = some u → u.owner = root →
          u.level ≠ 0 → isPresent (u.entries i) = true →
          isHuge (u.entries i) = false ∧ hasFlag vmmWritable (u.entries i) = true := by
        intro u hu huo hul hup
        by_cases hpc : p = c
        · rw [hpc, Tables.insertTable_self] at hu
          obtain rfl := some.inj hu
          rw [show isPresent (0 : Word) = false from isPresent_zero] at hup
          cases hup
        · rw [Tables.insertTable_of_ne hpc] at hu
          exact h hu huo hul hup
      by_cases hpp : p = parent
      · cases hu : s.tables.insertTable c level owner p with
        | none =>
            rw [Tables.writeEntry, ← hpp, Function.update_self, hu] at ht
            cases ht
        | some u =>
            rw [← hpp, Tables.writeEntry_self hu] at ht
            obtain rfl := some.inj ht
            by_cases hi : i = index
            · subst hi
              simp only [Function.update_self]
              exact ⟨isHuge_tableEntry creates.aligned flags, hasWritable_tableEntry flags⟩
            · simp only [Function.update_of_ne hi] at hpresent ⊢
              exact hother u hu howner hlevel hpresent
      · rw [Tables.writeEntry_of_ne hpp] at ht
        exact hother t ht howner hlevel hpresent

/-- Leaves do not count. -/
theorem writeLeaf {u : Table} (h : s.Plain root) (hu : s.tables pt = some u)
    (hl : u.level = vmmLevelPt) (index : Fin 512) (entry : Word) :
    (s.write pt index entry).Plain root := by
  intro p t i ht howner hlevel hpresent
  rw [tables_write] at ht
  by_cases hp : p = pt
  · rw [hp, Tables.writeEntry_self hu] at ht
    obtain rfl := some.inj ht
    exact absurd hl hlevel
  · rw [Tables.writeEntry_of_ne hp] at ht
    exact h ht howner hlevel hpresent

/-- On the way to a page all entries but the last are writable. -/
theorem walkEntries (h : s.Plain root) (hwf : s.tables.forest.Wf vmmLevelPml4 loose)
    (ht : s.tables p = some t) (hl : t.level = level) (ho : t.owner = root)
    (hwalk : s.tables.walk root level p va = some (0, leaf)) :
    ∃ above, walkEntries s.memory level p va = above ++ [leaf] ∧
      ∀ entry ∈ above, hasFlag vmmWritable entry = true := by
  induction level generalizing p t with
  | zero =>
      rw [Tables.walk_zero ht hl ho] at hwalk
      refine ⟨[], ?_, fun _ hmem => absurd hmem not_mem_nil⟩
      rw [Batos.walkEntries, memory_of_tables ht]
      split_ifs at hwalk
      exact congrArg (fun e => [e]) (Prod.mk.inj (some.inj hwalk)).2
  | succ level ih =>
      rw [Tables.walk_succ ht hl ho] at hwalk
      by_cases hpresent : isPresent (t.entries (levelIndex (level + 1) va)) = true
      swap
      · rw [if_pos (by simpa using hpresent)] at hwalk
        cases hwalk
      obtain ⟨hhuge, hwritable⟩ := h ht ho (by omega) hpresent
      rw [if_neg (by rw [hpresent]; decide), if_neg (by rw [hhuge]; decide)] at hwalk
      obtain ⟨u, hu, hul, huo⟩ := Tables.child_of_wf hwf ht
        (entryChild_eq_some.mpr ⟨by omega, hpresent, hhuge, rfl⟩)
      obtain ⟨above, habove, hall⟩ := ih hu (by omega) (huo.trans ho) hwalk
      refine ⟨t.entries (levelIndex (level + 1) va) :: above, ?_, forall_mem_cons.mpr
        ⟨hwritable, hall⟩⟩
      rw [Batos.walkEntries, memory_of_tables ht, if_pos ⟨hpresent, hhuge⟩, habove, cons_append]

/-- The rights on a page are those of its leaf, as far as the leaf says. -/
theorem effectiveRight (h : s.Plain root) (hwf : s.tables.forest.Wf vmmLevelPml4 loose)
    (hroot : vmmVerifyPageTableRoot s root = true)
    (hlookup : s.tables.lookup root va = some (0, leaf)) :
    effectiveRight vmmWritable s root va = hasFlag vmmWritable leaf ∧
      (hasFlag vmmUser leaf = false → effectiveRight vmmUser s root va = false) := by
  obtain ⟨t, ht, hl, ho⟩ := vmmVerifyPageTableRoot_iff.mp hroot
  obtain ⟨above, habove, hall⟩ := h.walkEntries hwf ht hl ho hlookup
  unfold Batos.effectiveRight
  rw [habove, all_append, all_append, all_cons, all_cons, all_nil, all_nil,
    Bool.and_true, Bool.and_true, all_eq_true.mpr hall, Bool.true_and]
  refine ⟨rfl, fun huser => ?_⟩
  rw [huser, Bool.and_false]

end Paging.Plain

/-! ## A tree of its own -/

/-- A descent below a new table extends what was there before. -/
theorem Paging.Extends.childStep {s₀ s s' : Paging} (h₀ : s₀.Extends s) (h : s.Inv ∅)
    (hparent : s₀.tables parent = none)
    (hstep : s.ChildStep parent index flags level owner b c s') :
    s₀.Extends s' := by
  have hadds : s₀.Adds s' :=
    Paging.Adds.trans ⟨fun {q} hq => by
      obtain ⟨t, ht⟩ := Option.ne_none_iff_exists'.mp hq
      rw [h₀.kept ht]
      exact Option.some_ne_none t, h₀.used⟩ (hstep.adds h)
  cases hstep with
  | existing edge => exact h₀
  | @created c s' t table parentLevel empty creates =>
      have hcnone : s.tables c = none := h.tables_of_free creates.free
      have hother : ∀ {q}, q ≠ c → q ≠ parent → s'.tables q = s.tables q := by
        intro q hqc hqp
        rw [creates.tables, Tables.writeEntry_of_ne hqp, Tables.insertTable_of_ne hqc]
      have hsome : s.tables parent ≠ none := by
        rw [table]
        exact Option.some_ne_none t
      refine ⟨?_, fun {q u} hq => ?_, fun {q} hnone hq => ?_, hadds.used, fun q hnone hfree => ?_⟩
      · rw [creates.pmm]
        exact h₀.geometry.trans (s.pmm.sameGeometry_reserve _)
      · have hq' := h₀.kept hq
        rw [hother ?_ ?_]
        · exact hq'
        · rintro rfl
          rw [hcnone] at hq'
          cases hq'
        · rintro rfl
          rw [hparent] at hq
          cases hq
      · by_cases hqc : q = c
        · rw [hqc]
          exact h₀.free_of_free creates.free
        · refine h₀.fresh hnone ?_
          by_cases hqp : q = parent
          · rw [hqp]
            exact hsome
          · rw [← hother hqc hqp]
            exact hq
      · rw [creates.memory q ?_ ?_]
        · exact h₀.memory q hnone hfree
        · rintro rfl
          exact hfree (h₀.free_of_free creates.free)
        · rintro rfl
          exact hfree (h₀.fresh hnone hsome)

/-- A state that has grown a tree below the new root `root`, and nothing else. -/
structure Paging.Hosts (s₀ : Paging) (root : Word) (s : Paging) : Prop where
  inv : s.Inv ∅
  grown : s₀.Extends s
  roots : s.roots ⊆ insert root s₀.roots
  live : vmmVerifyPageTableRoot s root = true
  plain : s.Plain root

namespace Paging.Hosts

variable {s₀ s s' : Paging} {root : Word}

theorem of_same (h : s₀.Hosts root s) (hsame : s.Same s') (hinv : s'.Inv ∅) : s₀.Hosts root s' where
  inv := hinv
  grown := h.grown.trans (.of_same hsame)
  roots := by
    rw [Paging.roots_congr hsame.tables]
    exact h.roots
  live := by
    rw [vmmVerifyPageTableRoot_iff, hsame.tables]
    exact vmmVerifyPageTableRoot_iff.mp h.live
  plain := h.plain.congr hsame.tables

section Step

variable (h₀ : s₀.Inv ∅) (hnew : s₀.tables root = none)

include h₀ hnew

/-- The tables of the new root are new. -/
theorem tables_none (h : s₀.Hosts root s) (ht : s.tables p = some t) (ho : t.owner = root) :
    s₀.tables p = none := by
  cases hp : s₀.tables p with
  | none => rfl
  | some u =>
      obtain rfl := some.inj ((h.grown.kept hp).symm.trans ht)
      have howner := (h₀.wf.desc_owner (Tables.forest_info hp)).1
      rw [ho, Tables.forest_info_eq_none.mpr hnew] at howner
      cases howner

theorem childStep (h : s₀.Hosts root s) (hlevel : level < vmmLevelPml4)
    (ht : s.tables parent = some t) (ho : t.owner = root)
    (hstep : s.ChildStep parent index flags level root b c s') (hinv : s'.Inv ∅) :
    s₀.Hosts root s' where
  inv := hinv
  grown := h.grown.childStep h.inv (h.tables_none h₀ hnew ht ho) hstep
  roots := (hstep.roots_subset hlevel).trans h.roots
  live := by
    obtain ⟨r, hr, hrl, hro⟩ := vmmVerifyPageTableRoot_iff.mp h.live
    obtain ⟨r', hr', hrl', hro', -⟩ := (hstep.grows h.inv ht ho).keeps hr
    exact vmmVerifyPageTableRoot_iff.mpr ⟨r', hr', hrl'.trans hrl, hro'.trans hro⟩
  plain := h.plain.childStep hstep

theorem writeLeaf (h : s₀.Hosts root s) (ht : s.tables pt = some t) (hl : t.level = vmmLevelPt)
    (ho : t.owner = root) {entry : Word} (hinv : (s.write pt index entry).Inv ∅) :
    s₀.Hosts root (s.write pt index entry) where
  inv := hinv
  grown := h.grown.write (h.tables_none h₀ hnew ht ho) ht index entry
  roots := h.roots
  live := h.live
  plain := h.plain.writeLeaf ht hl index entry

/-- **Mapping a page below the new root** keeps to its tree, whether it succeeds or not. -/
theorem mapPage (h : s₀.Hosts root s) (va pa flags : Word) :
    s₀.Hosts root (vmmMapPage s root va pa flags).2 := by
  rcases vmmMapPage_cases h.inv root va pa flags with
    ⟨s', heq, hinv, hsame⟩ | ⟨s', heq, hinv, hmaps⟩
  · rw [heq]
    exact h.of_same hsame hinv
  · rw [heq]
    obtain ⟨t₃, ht₃, hl₃, ho₃⟩ := hmaps.root
    obtain ⟨pdpt, pd, pt, b₂, b₁, b₀, s₁, s₂, s₃, t, hstep₂, hstep₁, hstep₀, hinv₁, hinv₂, hinv₃,
      ht, hl, ho, hempty, rfl⟩ := hmaps.descent
    obtain ⟨t₂, ht₂, hl₂, ho₂⟩ := hstep₂.child h.inv ht₃ hl₃ ho₃ hinv₁
    obtain ⟨t₁, ht₁, hl₁, ho₁⟩ := hstep₁.child hinv₁ ht₂ hl₂ ho₂ hinv₂
    have h₂ := h.childStep h₀ hnew (by decide) ht₃ ho₃ hstep₂ hinv₁
    have h₁ := h₂.childStep h₀ hnew (by decide) ht₂ ho₂ hstep₁ hinv₂
    have h₀' := h₁.childStep h₀ hnew (by decide) ht₁ ho₁ hstep₀ hinv₃
    exact h₀'.writeLeaf h₀ hnew ht hl ho hinv

/-- So do all sections together. -/
theorem mapKernelSections (h : s₀.Hosts root s) (virtualBase physicalBase imageEnd : Word)
    (sections : List (Word × Word × Word)) :
    s₀.Hosts root (mapKernelSections root virtualBase physicalBase imageEnd sections s).2 :=
  mapKernelSections_induction (fun _ va pa flags hs => hs.mapPage h₀ hnew va pa flags) virtualBase
    physicalBase imageEnd sections h

end Step

end Paging.Hosts

/-! ## New leaves -/

/-- Pages with their leaf entries become mapped: their addresses led nowhere and lead to the leaves,
and all other addresses lead where they led. -/
structure Paging.Gains (root : Word) (leaves : Set (Word × Word)) (s s' : Paging) : Prop where
  lookup : ∀ va, (s'.tables.lookup root va = s.tables.lookup root va ∧
      ∀ x ∈ leaves, ¬ Tables.SamePath va x.1) ∨
    s.tables.lookup root va = none ∧
      ∃ x ∈ leaves, Tables.SamePath va x.1 ∧ s'.tables.lookup root va = some (0, x.2)
  distinct : ∀ x ∈ leaves, ∀ y ∈ leaves, Tables.SamePath x.1 y.1 → x = y

namespace Paging.Gains

variable {root : Word} {leaves leaves' : Set (Word × Word)} {s s' s'' : Paging}

theorem refl (root : Word) (s : Paging) : Gains root ∅ s s :=
  ⟨fun _ => .inl ⟨rfl, fun _ hx => absurd hx (Set.notMem_empty _)⟩,
    fun _ hx => absurd hx (Set.notMem_empty _)⟩

/-- A page that has been gained leads to its leaf, and led nowhere before. -/
theorem lookup_of_mem (h : Gains root leaves s s') {x : Word × Word} (hx : x ∈ leaves) :
    s.tables.lookup root x.1 = none ∧ s'.tables.lookup root x.1 = some (0, x.2) := by
  rcases h.lookup x.1 with ⟨-, hnone⟩ | ⟨hnone, y, hy, hpath, hlookup⟩
  · exact absurd (Tables.SamePath.refl x.1) (hnone x hx)
  · obtain rfl := h.distinct x hx y hy hpath
    exact ⟨hnone, hlookup⟩

theorem trans (h₁ : Gains root leaves s s') (h₂ : Gains root leaves' s' s'') :
    Gains root (leaves ∪ leaves') s s'' := by
  -- what the first part maps the second finds mapped
  have hapart : ∀ x ∈ leaves, ∀ y ∈ leaves', ¬ Tables.SamePath x.1 y.1 := by
    intro x hx y hy hpath
    have hmapped := (h₁.lookup_of_mem hx).2
    rw [hpath.lookup, (h₂.lookup_of_mem hy).1] at hmapped
    cases hmapped
  refine ⟨fun va => ?_, ?_⟩
  · rcases h₁.lookup va with ⟨heq₁, hnone₁⟩ | ⟨hbefore₁, x, hx, hpath, hlookup₁⟩
    · rcases h₂.lookup va with ⟨heq₂, hnone₂⟩ | ⟨hbefore₂, y, hy, hpath, hlookup₂⟩
      · refine .inl ⟨heq₂.trans heq₁, fun x hx => ?_⟩
        exact hx.elim (hnone₁ x) (hnone₂ x)
      · exact .inr ⟨heq₁.symm.trans hbefore₂, y, .inr hy, hpath, hlookup₂⟩
    · rcases h₂.lookup va with ⟨heq₂, -⟩ | ⟨hbefore₂, -⟩
      · exact .inr ⟨hbefore₁, x, .inl hx, hpath, heq₂.trans hlookup₁⟩
      · rw [hlookup₁] at hbefore₂
        cases hbefore₂
  · rintro x (hx | hx) y (hy | hy) hpath
    · exact h₁.distinct x hx y hy hpath
    · exact absurd hpath (hapart x hx y hy)
    · exact absurd hpath.symm (hapart y hy x hx)
    · exact h₂.distinct x hx y hy hpath

/-- A successful `vmm_map_page` gains one page. -/
theorem of_maps {pa : Word} (h : s.Inv ∅) (hmaps : s.Maps root va pa flags s') :
    Gains root {(va, leafEntry pa flags)} s s' := by
  obtain ⟨hbefore, hafter⟩ := hmaps.lookup h
  refine ⟨fun va' => ?_, ?_⟩
  · rw [hafter]
    by_cases hpath : Tables.SamePath va' va
    · rw [if_pos hpath, hpath.lookup]
      exact .inr ⟨hbefore, _, rfl, hpath, rfl⟩
    · rw [if_neg hpath]
      refine .inl ⟨rfl, ?_⟩
      rintro _ rfl
      exact hpath
  · rintro _ rfl _ rfl -
    rfl

end Paging.Gains

/-! ## One section -/

/-- The pages that have a byte of `[start, stop)`, by any of their addresses. -/
def SectionCovers (start stop va : Word) : Prop :=
  start < stop ∧ start.toNat / 4096 ≤ va.toNat / 4096 ∧ va.toNat / 4096 < (stop.toNat + 4095) / 4096

instance (start stop va : Word) : Decidable (SectionCovers start stop va) :=
  inferInstanceAs (Decidable (_ ∧ _ ∧ _))

/-- The pages of a section with their leaf entries. -/
def sectionLeaves (virtualBase physicalBase : Word) (sec : Word × Word × Word) :
    Set (Word × Word) :=
  { x | x.1 &&& 0xFFF = 0 ∧ SectionCovers sec.1 sec.2.1 x.1 ∧
    x.2 = leafEntry (physicalBase + (x.1 - virtualBase)) sec.2.2 }

section Pages

variable {root virtualBase physicalBase imageEnd flags : Word} {s : Paging}

theorem toNat_nextPage {pages : ℕ} (hva : va.toNat % 4096 = 0)
    (hroom : va.toNat + (pages + 1) * 4096 < 2 ^ 64) :
    (va + 0x1000).toNat = va.toNat + 4096 ∧ (va + 0x1000).toNat % 4096 = 0 ∧
      (va + 0x1000).toNat + pages * 4096 < 2 ^ 64 := by
  have hnext : (va + 0x1000).toNat = va.toNat + 4096 := by
    rw [toNat_add, show (0x1000 : Word).toNat = 4096 from rfl]
    exact Nat.mod_eq_of_lt (by omega)
  exact ⟨hnext, by omega, by omega⟩

/-- The end of a section rounded up, unless that overflows. -/
theorem toNat_roundUp {stop : Word} (h : stop ≤ (stop + 0xFFF) &&& ~~~0xFFF) :
    ((stop + 0xFFF) &&& ~~~0xFFF).toNat = (stop.toNat + 4095) / 4096 * 4096 := by
  have hup : ((stop + 0xFFF) &&& ~~~0xFFF).toNat = (stop + 0xFFF).toNat / 4096 * 4096 :=
    toNat_and_not_lowMask 12 (stop + 0xFFF)
  have hsum : (stop + 0xFFF).toNat = (stop.toNat + 4095) % 2 ^ 64 := toNat_add _ _
  rw [le_def] at h
  have hlt := stop.isLt
  by_cases hoverflow : stop.toNat + 4095 < 2 ^ 64
  · rw [hup, hsum, Nat.mod_eq_of_lt hoverflow]
  · have hsmall : (stop + 0xFFF).toNat < 4096 := by omega
    rw [hup, Nat.div_eq_of_lt hsmall, Nat.zero_mul, Nat.le_zero] at h
    rw [h] at hoverflow
    exact absurd (by decide) hoverflow

/-- Pages from a rounded start on, and up to a rounded end. -/
theorem page_bounds {page : ℕ} (hpage : page % 4096 = 0) (start stop : ℕ) :
    (start / 4096 ≤ page / 4096 ↔ start / 4096 * 4096 ≤ page) ∧
      (page / 4096 < stop ↔ page < stop * 4096) := by
  omega

/-- The loop gains the pages it visits. -/
theorem mapKernelPages_gains (pages : ℕ) (hva : va.toNat % 4096 = 0)
    (hroom : va.toNat + pages * 4096 < 2 ^ 64) (h : s.Inv ∅)
    (hok : (mapKernelPages root virtualBase physicalBase flags pages va s).1 = 0) :
    Paging.Gains root
      { x | va.toNat ≤ x.1.toNat ∧ x.1.toNat < va.toNat + pages * 4096 ∧ x.1.toNat % 4096 = 0 ∧
        x.2 = leafEntry (physicalBase + (x.1 - virtualBase)) flags }
      s (mapKernelPages root virtualBase physicalBase flags pages va s).2 := by
  induction pages generalizing va s with
  | zero =>
      have hempty : { x : Word × Word | va.toNat ≤ x.1.toNat ∧ x.1.toNat < va.toNat + 0 * 4096 ∧
          x.1.toNat % 4096 = 0 ∧ x.2 = leafEntry (physicalBase + (x.1 - virtualBase))
          flags } = ∅ := by
        refine Set.eq_empty_of_forall_notMem fun x hx => ?_
        obtain ⟨hfrom, hto, -⟩ := hx
        omega
      rw [hempty]
      exact .refl root s
  | succ pages ih =>
      obtain ⟨hnext, haligned, hroom'⟩ := toNat_nextPage hva hroom
      rw [mapKernelPages] at hok ⊢
      dsimp only at hok ⊢
      by_cases hoverflow : 0xFFFFFFFFFFFFFFFF - physicalBase < va - virtualBase
      · rw [if_pos hoverflow] at hok
        cases hok
      rw [if_neg hoverflow] at hok ⊢
      rcases vmmMapPage_cases h root va (physicalBase + (va - virtualBase)) flags with
        ⟨s₁, heq, -⟩ | ⟨s₁, heq, hinv₁, hmaps⟩
      · rw [heq] at hok
        cases hok
      rw [heq] at hok ⊢
      have hzero : ¬ (0 : ℤ) ≠ 0 := fun hne => hne rfl
      dsimp only at hok ⊢
      rw [if_neg hzero] at hok ⊢
      have hrest := ih haligned hroom' hinv₁ hok
      have hall := (Paging.Gains.of_maps h hmaps).trans hrest
      convert hall using 1
      -- the first page and the rest
      ext ⟨page, leaf⟩
      simp only [Set.mem_ofPred_eq, Set.mem_union, Set.mem_singleton_iff, Prod.mk.injEq, hnext]
      constructor
      · rintro ⟨hfrom, hto, haligned, rfl⟩
        by_cases hfirst : page = va
        · subst hfirst
          exact .inl ⟨rfl, rfl⟩
        · have hne : page.toNat ≠ va.toNat := fun heq => hfirst (BitVec.eq_of_toNat_eq heq)
          exact .inr ⟨by omega, by omega, haligned, rfl⟩
      · rintro (⟨rfl, rfl⟩ | ⟨hfrom, hto, haligned, rfl⟩)
        · exact ⟨le_rfl, by omega, hva, rfl⟩
        · exact ⟨by omega, by omega, haligned, rfl⟩

/-- **A section that is mapped gains its pages.**  They lie between the base and the end of the
image. -/
theorem mapKernelSection_gains (start stop flags : Word) (h : s.Inv ∅)
    (hok : (mapKernelSection s root virtualBase physicalBase imageEnd start stop flags).1 = 0) :
    Paging.Gains root (sectionLeaves virtualBase physicalBase (start, stop, flags)) s
      (mapKernelSection s root virtualBase physicalBase imageEnd start stop flags).2 ∧
    (start < stop → virtualBase ≤ start ∧ (stop.toNat + 4095) / 4096 * 4096 ≤ imageEnd.toNat) := by
  unfold mapKernelSection at hok ⊢
  by_cases hempty : stop ≤ start
  · have hnot : ¬ start < stop := not_lt.mpr hempty
    rw [if_pos hempty]
    refine ⟨?_, fun hlt => absurd hlt hnot⟩
    have hnone : sectionLeaves virtualBase physicalBase (start, stop, flags) = ∅ :=
      Set.eq_empty_of_forall_notMem fun x hx => hnot hx.2.1.1
    rw [hnone]
    exact .refl root s
  rw [if_neg hempty] at hok ⊢
  by_cases hinside : start < virtualBase ∨ imageEnd < stop
  · rw [if_pos hinside] at hok
    cases hok
  rw [if_neg hinside] at hok ⊢
  dsimp only at hok ⊢
  by_cases hrounded : (stop + 0xFFF) &&& ~~~0xFFF < stop ∨ imageEnd < (stop + 0xFFF) &&& ~~~0xFFF
  · rw [if_pos hrounded] at hok
    cases hok
  rw [if_neg hrounded] at hok ⊢
  obtain ⟨hbase, -⟩ := not_or.mp hinside
  obtain ⟨hstop, hend⟩ := not_or.mp hrounded
  have hdown : (start &&& ~~~0xFFF).toNat = start.toNat / 4096 * 4096 :=
    toNat_and_not_lowMask 12 start
  have hup := toNat_roundUp (not_lt.mp hstop)
  rw [BitVec.not_le] at hempty
  rw [not_lt, le_def] at hend
  rw [hup] at hend hok ⊢
  have hlt := imageEnd.isLt
  have hle : start.toNat < stop.toNat := hempty
  have hpages : (start &&& ~~~0xFFF).toNat +
      ((stop.toNat + 4095) / 4096 * 4096 - (start &&& ~~~0xFFF).toNat) / 4096 * 4096 =
        (stop.toNat + 4095) / 4096 * 4096 := by
    rw [hdown]
    omega
  have hgains := mapKernelPages_gains _ (by rw [hdown]; omega) (by rw [hpages]; omega) h hok
  refine ⟨?_, fun _ => ⟨not_lt.mp hbase, hend⟩⟩
  convert hgains using 1
  ext ⟨page, leaf⟩
  simp only [sectionLeaves, SectionCovers, Set.mem_ofPred_eq, and_pageMask_eq_zero_iff]
  rw [hpages, hdown]
  constructor
  · rintro ⟨haligned, ⟨-, hfrom, hto⟩, rfl⟩
    obtain ⟨hfrom', hto'⟩ := page_bounds haligned start.toNat ((stop.toNat + 4095) / 4096)
    exact ⟨hfrom'.mp hfrom, hto'.mp hto, haligned, rfl⟩
  · rintro ⟨hfrom, hto, haligned, rfl⟩
    obtain ⟨hfrom', hto'⟩ := page_bounds haligned start.toNat ((stop.toNat + 4095) / 4096)
    exact ⟨haligned, ⟨hempty, hfrom'.mpr hfrom, hto'.mpr hto⟩, rfl⟩

/-- **All sections, if they are mapped, gain their pages.** -/
theorem mapKernelSections_gains (sections : List (Word × Word × Word)) (h : s.Inv ∅)
    (hok : (mapKernelSections root virtualBase physicalBase imageEnd sections s).1 = 0) :
    Paging.Gains root { x | ∃ sec ∈ sections, x ∈ sectionLeaves virtualBase physicalBase sec } s
      (mapKernelSections root virtualBase physicalBase imageEnd sections s).2 ∧
    ∀ sec ∈ sections, sec.1 < sec.2.1 →
      virtualBase ≤ sec.1 ∧ (sec.2.1.toNat + 4095) / 4096 * 4096 ≤ imageEnd.toNat := by
  induction sections generalizing s with
  | nil =>
      refine ⟨?_, fun sec hsec => absurd hsec not_mem_nil⟩
      have hnone : { x : Word × Word | ∃ sec ∈ ([] : List (Word × Word × Word)),
          x ∈ sectionLeaves virtualBase physicalBase sec } = ∅ :=
        Set.eq_empty_of_forall_notMem fun x hx => by
          obtain ⟨sec, hsec, -⟩ := hx
          exact absurd hsec not_mem_nil
      rw [hnone]
      exact .refl root s
  | cons sec sections ih =>
      obtain ⟨start, stop, flags⟩ := sec
      rw [mapKernelSections] at hok ⊢
      have hinv := mapKernelSection_induction (P := fun s => s.Inv ∅) (fun s va pa flags hs =>
        (vmmMapPage_evolves hs root va pa flags).inv) virtualBase physicalBase imageEnd
          start stop flags h
      cases hsection : mapKernelSection s root virtualBase physicalBase imageEnd
        start stop flags with
      | mk code s₁ =>
          rw [hsection] at hok hinv
          dsimp only at hok ⊢
          by_cases hcode : code = 0
          swap
          · rw [if_pos hcode] at hok
            cases hok
          rw [if_neg (not_not.mpr hcode)] at hok ⊢
          have hfirst : (mapKernelSection s root virtualBase physicalBase imageEnd start stop
              flags).1 = 0 := by
            rw [hsection]
            exact hcode
          obtain ⟨hgains, hinside⟩ := mapKernelSection_gains start stop flags h hfirst
          rw [hsection] at hgains
          obtain ⟨hgains', hinside'⟩ := ih hinv hok
          refine ⟨?_, forall_mem_cons.mpr ⟨hinside, hinside'⟩⟩
          convert hgains.trans hgains' using 1
          ext x
          simp only [Set.mem_ofPred_eq, Set.mem_union, exists_mem_cons_iff]

end Pages

end Batos
