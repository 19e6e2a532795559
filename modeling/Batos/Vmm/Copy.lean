import Batos.Vmm.Release

/-!
# Copying a tree

`clone_page_table` and `copy_page_table_subtree` build a new tree, table by table,
and discard what they have built when an allocation fails.  `Paging.Extends` says
what such a construction may do to the state it started from: the tables of that
state are untouched, and whatever has changed is a new table in a frame that was
free.  The specification `CopySpec` of one recursive call is then that it either
leaves nothing behind or returns the root of a new loose tree; the two functions of
the source meet it at every level (`clonePageTable_spec`,
`copyPageTableSubtree_spec`).

What the copy contains plays no role for any of this: neither the source tables
nor their contents are assumed to make sense.
-/

namespace Batos

open Option (ne_none_iff_exists' some some_ne_none)
open Tables (exists_of_forest_info forest_edge forest_info_eq_none writeEntry_of_ne writeEntry_self)

variable {loose loose' : Set Word} {c owner p entry : Word} {level l : ℕ} {index : Fin 512}
  {s' : Paging} {recur : Paging → Word → Option Word × Paging}

/-- The tables of `s` are untouched, and all else that changed is new tables. -/
structure Paging.Extends (s s' : Paging) : Prop where
  geometry : s.pmm.SameGeometry s'.pmm
  kept : ∀ {q t}, s.tables q = some t → s'.tables q = some t
  fresh : ∀ {q}, s.tables q = none → s'.tables q ≠ none → s.pmm.Free (frameOf q)
  used : ∀ f, s'.pmm.used f = true ↔ s.pmm.used f = true ∨
    ∃ q, s.tables q = none ∧ s'.tables q ≠ none ∧ frameOf q = f
  memory : ∀ q, s.tables q = none → ¬ s.pmm.Free (frameOf q) → s'.memory q = s.memory q

namespace Paging.Extends

variable {s s' s'' : Paging}

theorem free_of_free (h : s.Extends s') {f : ℕ} (hf : s'.pmm.Free f) : s.pmm.Free f := by
  refine ⟨hf.1, by rw [← h.geometry.totalFrames]; exact hf.2.1, ?_⟩
  rw [Bool.eq_false_iff]
  intro hused
  have hused' := (h.used f).mpr (.inl hused)
  rw [hf.2.2] at hused'
  cases hused'

theorem frame (h : s.Extends s') (hinv : ∀ {q t}, s'.tables q = some t → q.toNat % 4096 = 0) :
    s.Frame s' := by
  refine ⟨h.geometry, fun {q} hq => ?_⟩
  have hnone : s'.tables q = none := by
    by_contra hsome
    exact hq.2.2 (h.fresh hq.2.1 hsome)
  refine ⟨⟨hq.1, hnone, fun hfree => hq.2.2 (h.free_of_free hfree)⟩, h.memory q hq.2.1 hq.2.2, ?_⟩
  rw [Bool.eq_iff_iff, h.used]
  refine ⟨fun hor => hor.resolve_right ?_, .inl⟩
  rintro ⟨r, -, hr, hframe⟩
  obtain ⟨t, ht⟩ := ne_none_iff_exists'.mp hr
  obtain rfl := frameOf_inj (hinv ht) hq.1 hframe
  exact hr hnone

theorem of_same (h : s.Same s') : s.Extends s' where
  geometry := h.geometry
  kept := by
    intro q t ht
    rw [h.tables]
    exact ht
  fresh := by
    intro q hnone hsome
    rw [h.tables] at hsome
    exact absurd hnone hsome
  used := by
    intro f
    rw [h.used]
    refine ⟨.inl, fun hor => hor.resolve_right ?_⟩
    rintro ⟨q, hnone, hsome, -⟩
    rw [h.tables] at hsome
    exact hsome hnone
  memory := fun q _ hfree => h.memory q hfree

/-- New tables add up. -/
theorem trans (h₁ : s.Extends s') (h₂ : s'.Extends s'') : s.Extends s'' where
  geometry := h₁.geometry.trans h₂.geometry
  kept := fun ht => h₂.kept (h₁.kept ht)
  fresh := by
    intro q hnone hsome
    by_cases hmid : s'.tables q = none
    · exact h₁.free_of_free (h₂.fresh hmid hsome)
    · exact h₁.fresh hnone hmid
  used := by
    intro f
    rw [h₂.used, h₁.used, or_assoc]
    refine or_congr_right ⟨?_, ?_⟩
    · rintro (⟨q, hnone, hsome, hf⟩ | ⟨q, hnone, hsome, hf⟩)
      · obtain ⟨t, ht⟩ := ne_none_iff_exists'.mp hsome
        exact ⟨q, hnone, by rw [h₂.kept ht]; exact some_ne_none t, hf⟩
      · refine ⟨q, ?_, hsome, hf⟩
        cases hq : s.tables q with
        | none => rfl
        | some t =>
            rw [h₁.kept hq] at hnone
            cases hnone
    · rintro ⟨q, hnone, hsome, hf⟩
      by_cases hmid : s'.tables q = none
      · exact .inr ⟨q, hmid, hsome, hf⟩
      · exact .inl ⟨q, hnone, hmid, hf⟩
  memory := by
    intro q hnone hfree
    have hmid : s'.tables q = none := by
      by_contra hsome
      exact hfree (h₁.fresh hnone hsome)
    rw [h₂.memory q hmid fun hf => hfree (h₁.free_of_free hf), h₁.memory q hnone hfree]

/-- One new table. -/
theorem of_allocates (h : s.Inv loose) (halloc : s.Allocates c level owner s') : s.Extends s' where
  geometry := by
    rw [halloc.pmm]
    exact s.pmm.sameGeometry_reserve _
  kept := by
    intro q t ht
    have hne : q ≠ c := ne_of_eq_none ht (h.tables_of_free halloc.free)
    exact (halloc.tables_of_ne hne).trans ht
  fresh := by
    intro q hnone hsome
    by_cases hq : q = c
    · subst hq
      exact halloc.free
    · rw [halloc.tables_of_ne hq] at hsome
      exact absurd hnone hsome
  used := by
    intro f
    rw [halloc.pmm, Pmm.used_reserve, Bool.or_eq_true, decide_eq_true_eq, or_comm]
    refine or_congr_right ⟨?_, ?_⟩
    · rintro rfl
      refine ⟨c, h.tables_of_free halloc.free, ?_, rfl⟩
      rw [halloc.tables_self]
      exact some_ne_none _
    · rintro ⟨q, hnone, hsome, rfl⟩
      by_cases hq : q = c
      · rw [hq]
      · rw [halloc.tables_of_ne hq] at hsome
        exact absurd hnone hsome
  memory := by
    intro q _ hfree
    refine halloc.memory q ?_
    rintro rfl
    exact hfree halloc.free

/-- Storing into a table that is new. -/
theorem write (h : s.Extends s') {t : Table} (hnew : s.tables p = none)
    (htab : s'.tables p = some t) (index : Fin 512) (entry : Word) :
    s.Extends (s'.write p index entry) := by
  have hother : ∀ q, q ≠ p → (s'.write p index entry).tables q = s'.tables q := by
    intro q hq
    rw [tables_write, writeEntry_of_ne hq]
  have hsome : ∀ q, (s'.write p index entry).tables q ≠ none ↔ s'.tables q ≠ none := by
    intro q
    by_cases hq : q = p
    · subst hq
      rw [tables_write, writeEntry_self htab, htab]
      simp
    · rw [hother q hq]
  refine ⟨h.geometry, fun {q u} hq => ?_, fun {q} hnone hq => h.fresh hnone ((hsome q).mp hq),
    fun f => ?_, fun q hnone hfree => ?_⟩
  · have hne : q ≠ p := ne_of_eq_none hq hnew
    rw [hother q hne]
    exact h.kept hq
  · change s'.pmm.used f = true ↔ _
    rw [h.used]
    simp only [hsome]
  · have hne : q ≠ p := by
      rintro rfl
      exact hfree (h.fresh hnew (by rw [htab]; exact some_ne_none t))
    rw [memory_write_of_ne hne]
    exact h.memory q hnone hfree

/-- New tables hang from new tables. -/
theorem tables_of_desc (h : s.Extends s') (hinv : s.Inv loose) (hinv' : s'.Inv loose')
    (hloose : loose ⊆ loose') {q : Word} (hp : s.tables p = none)
    (hdesc : s'.tables.forest.Desc p q) : s.tables q = none := by
  rw [← forest_info_eq_none] at hp ⊢
  refine Forest.info_eq_none_of_desc hinv'.wf hinv.wf hloose ?_ ?_ hp hdesc
  · rintro q ⟨l, o⟩ hinfo
    obtain ⟨u, hu, rfl, rfl⟩ := exists_of_forest_info hinfo
    exact Tables.forest_info (h.kept hu)
  · intro q i c hedge
    obtain ⟨_, _, hqi, -⟩ := hinv.wf.edge_info hedge
    obtain ⟨u, hu, -⟩ := exists_of_forest_info hqi
    rw [forest_edge hu] at hedge
    rw [forest_edge (h.kept hu)]
    exact hedge

/-- Pruning a new tree. -/
theorem prune (h : s.Extends s') (hinv : s.Inv loose) (hinv' : s'.Inv loose')
    (hloose : loose ⊆ loose') (hnew : s.tables p = none) (hprunes : Paging.Prunes p s' s'') :
    s.Extends s'' := by
  -- everything below a new node is new
  have hbelow : ∀ {q t}, s.tables q = some t → ¬ s'.tables.forest.Desc p q := by
    intro q t hq hdesc
    rw [h.tables_of_desc hinv hinv' hloose hnew hdesc] at hq
    cases hq
  have hsome : ∀ {q}, s''.tables q ≠ none → s'.tables q ≠ none := fun hq hnone =>
    hq (hprunes.tables_none hnone)
  refine ⟨h.geometry.trans hprunes.geometry, fun {q t} hq => ?_,
    fun {q} hnone hq => h.fresh hnone (hsome hq), fun f => ?_, fun q hnone hfree => ?_⟩
  · rw [hprunes.outside q (hbelow hq)]
    exact h.kept hq
  · rw [hprunes.used, h.used]
    constructor
    · rintro ⟨hused | ⟨q, hnone, hq, hf⟩, hgone⟩
      · exact .inl hused
      · refine .inr ⟨q, hnone, fun hq'' => hgone ⟨q, hq, hq'', hf⟩, hf⟩
    · rintro (hused | ⟨q, hnone, hq, hf⟩)
      · refine ⟨.inl hused, ?_⟩
        rintro ⟨q, hq, hq'', rfl⟩
        by_cases hold : s.tables q = none
        · have hfree := h.fresh hold hq
          rw [hfree.2.2] at hused
          cases hused
        · obtain ⟨t, ht⟩ := ne_none_iff_exists'.mp hold
          rw [hprunes.outside q (hbelow ht)] at hq''
          exact hq hq''
      · refine ⟨.inr ⟨q, hnone, hsome hq, hf⟩, ?_⟩
        rintro ⟨r, hr, hr'', hrf⟩
        obtain ⟨t, ht⟩ := ne_none_iff_exists'.mp hr
        obtain ⟨u, hu⟩ := ne_none_iff_exists'.mp (hsome hq)
        obtain rfl := frameOf_inj (hinv'.frames ht).aligned (hinv'.frames hu).aligned
          (hrf.trans hf.symm)
        exact hq hr''
  · have hmid : s'.tables q = none := by
      by_contra hq
      exact hfree (h.fresh hnone hq)
    rw [hprunes.memory q hmid]
    exact h.memory q hnone hfree

/-- An extension without new tables is none. -/
theorem same (h : s.Extends s') (hold : ∀ q, s'.tables q ≠ none → s.tables q ≠ none) :
    s.Same s' := by
  have htables : s'.tables = s.tables := by
    funext q
    cases hq : s.tables q with
    | some t => exact h.kept hq
    | none =>
        by_contra hsome
        exact hold q hsome hq
  refine ⟨htables, fun f => ?_, h.geometry, fun q hfree => ?_⟩
  · rw [Bool.eq_iff_iff, h.used]
    refine ⟨fun hor => hor.resolve_right ?_, .inl⟩
    rintro ⟨q, hnone, hsome, -⟩
    exact hold q hsome hnone
  · cases hq : s.tables q with
    | none => exact h.memory q hq hfree
    | some t => rw [memory_of_tables hq, memory_of_tables (h.kept hq)]

/-- New tables hang from new tables, so if none is new from some level on then none
is new at all. -/
theorem same_of_levels (h : s.Extends s') (hinv : s.Inv loose) (hinv' : s'.Inv loose)
    (hl : l ≤ vmmLevelPml4) (hlow : ∀ q t, s.tables q = none → s'.tables q = some t → t.level < l) :
    s.Same s' := by
  refine h.same fun q hq => ?_
  have hinfo := Forest.info_of_levels hinv'.wf hinv.wf (l := l)
    (fun q i hq => by
      obtain ⟨⟨lv, o⟩, hx⟩ := ne_none_iff_exists'.mp hq
      obtain ⟨u, hu, -⟩ := exists_of_forest_info hx
      rw [forest_edge hu, forest_edge (h.kept hu)])
    hl
    (fun q k o hinfo hmissing => by
      obtain ⟨t, ht, rfl, -⟩ := exists_of_forest_info hinfo
      exact hlow q t (forest_info_eq_none.mp hmissing) ht)
    (q := q) (fun hnone => hq (forest_info_eq_none.mp hnone))
  exact fun hnone => hinfo (forest_info_eq_none.mpr hnone)

end Paging.Extends

/-! ## One recursive call -/

/-- What a call that copies a table of this level is expected to do: leave nothing
behind, or return the root of a new loose tree, the highest of the new tables. -/
def CopySpec (level : ℕ) (owner : Word) (recur : Paging → Word → Option Word × Paging) : Prop :=
  ∀ (s : Paging) (source : Word) (loose : Set Word), s.Inv loose →
    (∃ s', recur s source = (none, s') ∧ s'.Inv loose ∧ s.Same s') ∨
      ∃ c s' u, recur s source = (some c, s') ∧ s'.Inv (insert c loose) ∧ s.Extends s' ∧
        s.tables c = none ∧ s'.tables c = some u ∧ u.level = level ∧
        u.owner = (if level = vmmLevelPml4 then c else owner) ∧
        ∀ q t, s.tables q = none → s'.tables q = some t → q = c ∨ t.level < level

/-- The state while the table `d` is being filled: `s₀` is the state before `d` was
allocated. -/
structure Filling (s₀ : Paging) (d : Word) (level : ℕ) (owner : Word) (loose : Set Word)
    (s : Paging) (t : Table) : Prop where
  inv : s.Inv (insert d loose)
  extends_ : s₀.Extends s
  table : s.tables d = some t
  table_level : t.level = level
  table_owner : t.owner = owner
  low : ∀ q u, s₀.tables q = none → s.tables q = some u → q = d ∨ u.level < level

section Filling

variable {s₀ s : Paging} {d owner : Word} {level : ℕ} {loose : Set Word} {t : Table}

/-- Storing into the table that is being filled. -/
theorem Filling.write (h : Filling s₀ d level owner loose s t) (hnew : s₀.tables d = none)
    (hinv : (s.write d index entry).Inv (insert d loose)) :
    Filling s₀ d level owner loose (s.write d index entry)
      { t with entries := Function.update t.entries index entry } where
  inv := hinv
  extends_ := h.extends_.write hnew h.table index entry
  table := by
    rw [tables_write]
    exact writeEntry_self h.table index entry
  table_level := h.table_level
  table_owner := h.table_owner
  low := by
    intro q u hnone hq
    by_cases hqd : q = d
    · exact .inl hqd
    · rw [tables_write, writeEntry_of_ne hqd] at hq
      exact h.low q u hnone hq

/-- A step that copies another tree leaves the table alone. -/
theorem Filling.extend (h : Filling s₀ d level owner loose s t) (hext : s.Extends s')
    (hinv : s'.Inv (insert d loose))
    (hlow : ∀ q u, s.tables q = none → s'.tables q = some u → u.level < level) :
    Filling s₀ d level owner loose s' t where
  inv := hinv
  extends_ := h.extends_.trans hext
  table := hext.kept h.table
  table_level := h.table_level
  table_owner := h.table_owner
  low := by
    intro q u hnone hq
    cases hmid : s.tables q with
    | none => exact .inr (hlow q u hmid hq)
    | some v =>
        obtain rfl := some.inj ((hext.kept hmid).symm.trans hq)
        exact h.low q v hnone hmid

/-- Linking a copied child into the table. -/
theorem Filling.link {u : Table} (h : Filling s₀ d level owner loose s t)
    (hnew : s₀.tables d = none) (hl : level = l + 1) (hpresent : isPresent entry = true)
    (hhuge : isHuge entry = false) (hold : entryChild t.level (t.entries index) = none)
    (hinv : s'.Inv (insert c (insert d loose))) (hext : s.Extends s') (hcnew : s.tables c = none)
    (hctab : s'.tables c = some u) (hul : u.level = l) (huo : u.owner = owner)
    (hlow : ∀ q v, s.tables q = none → s'.tables q = some v → q = c ∨ v.level < l) :
    Filling s₀ d level owner loose (s'.write d index (copiedEntry c entry))
      { t with entries := Function.update t.entries index (copiedEntry c entry) } := by
  have haligned : FrameAligned c := (hinv.frames hctab).frameAligned hinv.sound
  have hcloose : c ∉ insert d loose := fun hmem =>
    h.inv.wf.loose_registered hmem (forest_info_eq_none.mpr hcnew)
  have htable : s'.tables d = some t := hext.kept h.table
  refine ⟨?_, (h.extends_.trans hext).write hnew htable _ _, ?_, h.table_level, h.table_owner, ?_⟩
  · refine inv_write_link hinv hcloose htable hctab hold ?_ ?_ ?_
    · refine entryChild_eq_some.mpr ⟨?_, ?_, ?_, entryAddress_copiedEntry haligned entry⟩
      · rw [h.table_level]
        omega
      · rw [isPresent_copiedEntry haligned]
        exact hpresent
      · rw [isHuge_copiedEntry haligned]
        exact hhuge
    · rw [h.table_level, hul, hl]
    · rw [h.table_owner, huo]
  · rw [tables_write]
    exact writeEntry_self htable _ _
  · intro q v hnone hq
    by_cases hqd : q = d
    · exact .inl hqd
    · rw [tables_write, writeEntry_of_ne hqd] at hq
      cases hmid : s.tables q with
      | none =>
          refine .inr ?_
          rcases hlow q v hmid hq with rfl | hlt
          · obtain rfl := some.inj (hctab.symm.trans hq)
            omega
          · omega
      | some w =>
          obtain rfl := some.inj ((hext.kept hmid).symm.trans hq)
          exact h.low q w hnone hmid

/-- **The copying loop.**  Whether it completes or not, the table is a loose new
table with new tables below it. -/
theorem copyEntries_spec (source : Word) (hlevel : level ≤ vmmLevelPml4)
    (hrecur : ∀ l, level = l + 1 → CopySpec l owner recur) (hnew : s₀.tables d = none)
    {indices : List (Fin 512)} (hnodup : indices.Nodup) (h : Filling s₀ d level owner loose s t)
    (hempty : ∀ i ∈ indices, t.entries i = 0) :
    ∃ t', Filling s₀ d level owner loose
      (copyEntries level recur source d indices s).2 t' := by
  induction indices generalizing s t with
  | nil => exact ⟨t, h⟩
  | cons index indices ih =>
      obtain ⟨hindex, hnodup⟩ := List.nodup_cons.mp hnodup
      have hold : entryChild t.level (t.entries index) = none := by
        rw [hempty index (List.mem_cons_self ..)]
        exact entryChild_zero _
      -- the indices that remain are still empty after a store at this one
      have hrest : ∀ entry i, i ∈ indices → Function.update t.entries index entry i = 0 := by
        intro entry i hi
        rw [Function.update_of_ne (show i ≠ index from fun heq => hindex (heq ▸ hi))]
        exact hempty i (List.mem_cons_of_mem _ hi)
      rw [copyEntries]
      set entry := s.memory source index
      by_cases hpresent : isPresent entry = false
      · rw [if_pos hpresent]
        exact ih hnodup h fun i hi => hempty i (List.mem_cons_of_mem _ hi)
      rw [if_neg hpresent]
      by_cases hleaf : level = vmmLevelPt ∨ isHuge entry = true
      · rw [if_pos hleaf]
        refine ih hnodup (h.write hnew ?_) (hrest entry)
        refine inv_write_leaf h.inv h.table (fun hnot => absurd hnot hpresent) hold ?_
        rcases hleaf with hpt | hhuge
        · rw [h.table_level, hpt]
          rfl
        · exact entryChild_of_huge hhuge
      rw [if_neg hleaf]
      rw [not_or] at hleaf
      obtain ⟨l, hl⟩ := Nat.exists_eq_succ_of_ne_zero hleaf.1
      rcases hrecur l hl s (entryAddress entry) _ h.inv with
        ⟨s', heq, hinv, hsame⟩ | ⟨c, s', u, heq, hinv, hext, hcnew, hctab, hul, huo, hlow⟩
      · rw [heq]
        exact ⟨t, h.extend (.of_same hsame) hinv fun q v hnone hq => by
          rw [hsame.tables, hnone] at hq
          cases hq⟩
      · rw [heq]
        dsimp only
        exact ih hnodup (h.link hnew hl (by simpa using hpresent) (by simpa using hleaf.2) hold hinv
          hext hcnew hctab hul (by rw [huo, if_neg (by omega)]) hlow) (hrest _)

/-- The end of a copy: the tree is kept or discarded. -/
theorem finishCopy_spec (hinv₀ : s₀.Inv loose) (hnew : s₀.tables d = none)
    (hlevel : level ≤ vmmLevelPml4) {loop : Bool × Paging}
    (h : Filling s₀ d level owner loose loop.2 t) :
    (∃ s', finishCopy level d loop = (none, s') ∧ s'.Inv loose ∧ s₀.Same s') ∨
      ∃ s' u, finishCopy level d loop = (some d, s') ∧ s'.Inv (insert d loose) ∧
        s₀.Extends s' ∧ s'.tables d = some u ∧ u.level = level ∧ u.owner = owner ∧
        ∀ q t, s₀.tables q = none → s'.tables q = some t → q = d ∨ t.level < level := by
  obtain ⟨complete, s⟩ := loop
  cases complete with
  | true =>
      exact .inr ⟨s, t, rfl, h.inv, h.extends_, h.table, h.table_level, h.table_owner, h.low⟩
  | false =>
      have hd : d ∉ loose := fun hmem =>
        hinv₀.wf.loose_registered hmem (forest_info_eq_none.mpr hnew)
      obtain ⟨hinv, hgone, hprunes⟩ :=
        releaseTree_spec true level s d t loose h.inv hd h.table h.table_level
      refine .inl ⟨_, rfl, hinv, ?_⟩
      have hext := h.extends_.prune hinv₀ h.inv (Set.subset_insert _ _) hnew hprunes
      refine hext.same_of_levels hinv₀ hinv hlevel fun q u hnone hq => ?_
      obtain ⟨v, hv, hlv, -⟩ := hprunes.sub hq
      rw [hlv]
      refine (h.low q v hnone hv).resolve_left ?_
      rintro rfl
      rw [hgone] at hq
      cases hq

/-- The state right after the table to be filled has been allocated. -/
theorem Filling.of_allocates (hinv₀ : s₀.Inv loose) (halloc : s₀.Allocates d level owner s)
    (hinv : s.Inv (insert d loose)) :
    Filling s₀ d level owner loose s ⟨level, owner, fun _ => 0⟩ where
  inv := hinv
  extends_ := .of_allocates hinv₀ halloc
  table := halloc.tables_self
  table_level := rfl
  table_owner := rfl
  low := by
    intro q u hnone hq
    by_cases hqd : q = d
    · exact .inl hqd
    · rw [halloc.tables_of_ne hqd, hnone] at hq
      cases hq

end Filling

/-! ## The two functions -/

/-- One level of a copy.  Without a table to fill it leaves all as it is; otherwise the loop
fills the new table `d`, and `recur d` copies the child tables. -/
def CopyStep (level : ℕ) (owner : Word) (recur : Word → Paging → Word → Option Word × Paging)
    (copy : Paging → Word → Option Word × Paging) : Prop :=
  ∀ (s : Paging) (source : Word), s.Booked →
    (∃ s', copy s source = (none, s') ∧ s.Same s' ∧ s'.records = s.records) ∨
      ∃ d s', source ≠ 0 ∧ s.Allocates d level (if level = vmmLevelPml4 then d else owner) s' ∧
        s.pmm.frameBitmap ≠ 0 ∧ s'.liveFrames.Nodup ∧ (0 : Word) ∉ s'.liveFrames ∧
        copy s source = finishCopy level d (copyEntries level (recur d) source d tableIndices s')

/-- One level of `clone_page_table`.  The owner that the new record is given is the one it has. -/
theorem cloneTable_step (level : ℕ) (hlevel : level ≤ vmmLevelPml4) (owner : Word)
    (hroot : level = vmmLevelPml4 → owner = 0)
    (recur : Word → Paging → Word → Option Word × Paging) :
    CopyStep level owner (fun d => recur (if level = vmmLevelPml4 then d else owner))
      fun s source => cloneTable level recur s source owner := by
  intro s source h
  dsimp only
  unfold cloneTable
  by_cases hzero : source = 0
  · rw [if_pos hzero]
    exact .inl ⟨s, rfl, .refl s, rfl⟩
  rw [if_neg hzero, if_neg (Nat.not_lt.mpr hlevel)]
  rcases allocatePageTable_outcome h level owner hlevel hroot with
    ⟨s', heq, hsame⟩ | ⟨d, s', heq, halloc, hbooks⟩
  · rw [heq]
    exact .inl ⟨s', rfl, hsame⟩
  rw [heq]
  obtain ⟨record, hrecord, -, howner, -⟩ := tables_eq_some.mp halloc.tables_self
  have hamend : (s'.amend d fun record =>
      { record with ownerPml4 := if level = vmmLevelPml4 then d else owner }) = s' := by
    unfold Paging.amend
    rw [SlotRegistry.amend_eq_self fun r hr => ?_]
    rw [← findPageTableRecord_of_ne_zero halloc.nonzero, hrecord] at hr
    obtain rfl := some.inj hr
    dsimp only at howner
    rw [← howner]
  dsimp only
  rw [hrecord]
  dsimp only
  rw [hamend]
  exact .inr ⟨d, s', hzero, halloc, hbooks.1, hbooks.2.1, hbooks.2.2, rfl⟩

/-- One level of `copy_page_table_subtree`. -/
theorem copyTable_step (level : ℕ) (hlevel : level ≤ vmmLevelPdpt) (owner : Word)
    (recur : Paging → Word → Option Word × Paging) :
    CopyStep level owner (fun _ => recur) fun s source => copyTable level recur s source owner := by
  intro s source h
  dsimp only
  unfold copyTable
  by_cases hzero : source = 0 ∨ owner = 0
  · rw [if_pos hzero]
    exact .inl ⟨s, rfl, .refl s, rfl⟩
  rw [if_neg hzero, if_neg (Nat.not_lt.mpr hlevel)]
  have htop : level ≠ vmmLevelPml4 := (lt_of_le_of_lt hlevel (by decide)).ne
  rcases allocatePageTable_outcome h level owner (hlevel.trans (by decide)) (absurd · htop) with
    ⟨s', heq, hsame⟩ | ⟨d, s', heq, halloc, hbooks⟩
  · rw [heq]
    exact .inl ⟨s', rfl, hsame⟩
  · rw [heq]
    exact .inr ⟨d, s', (not_or.mp hzero).1, halloc, hbooks.1, hbooks.2.1, hbooks.2.2, rfl⟩

/-- **The rule of the copies.**  What one level meets if its recursive calls do, both functions
meet at every level; only a PML4 is cloned without an owner. -/
theorem copies_rule {S : ℕ → Word → (Paging → Word → Option Word × Paging) → Prop}
    (hstep : ∀ {level : ℕ} {owner : Word} {recur : Word → Paging → Word → Option Word × Paging}
      {copy : Paging → Word → Option Word × Paging}, CopyStep level owner recur copy →
      level ≤ vmmLevelPml4 →
      (∀ l d, level = l + 1 → S l (if level = vmmLevelPml4 then d else owner) (recur d)) →
      S level owner copy) :
    (∀ level ≤ vmmLevelPml4, ∀ owner, (level = vmmLevelPml4 → owner = 0) →
        S level owner (clonePageTable level owner)) ∧
      ∀ level ≤ vmmLevelPdpt, ∀ owner, S level owner (copyPageTableSubtree level owner) := by
  refine ⟨fun level hlevel => ?_, fun level hlevel owner => ?_⟩
  · induction level with
    | zero =>
        intro owner hroot
        exact hstep (cloneTable_step 0 hlevel owner hroot _) hlevel fun l _ hl =>
          absurd hl (by omega)
    | succ level ih =>
        intro owner hroot
        refine hstep (cloneTable_step (level + 1) hlevel owner hroot _) hlevel fun l d hl => ?_
        obtain rfl : level = l := by omega
        exact ih (by omega) _ (by omega)
  · have htop : level ≤ vmmLevelPml4 := hlevel.trans (by decide)
    induction level with
    | zero =>
        exact hstep (copyTable_step 0 hlevel owner _) htop fun l _ hl => absurd hl (by omega)
    | succ level ih =>
        refine hstep (copyTable_step (level + 1) hlevel owner _) htop fun l d hl => ?_
        obtain rfl : level = l := by omega
        rw [if_neg (lt_of_le_of_lt hlevel (by decide)).ne]
        exact ih (by omega) (by omega)

/-- One level of a copy meets its specification. -/
theorem CopyStep.spec {recur : Word → Paging → Word → Option Word × Paging}
    {copy : Paging → Word → Option Word × Paging} (hstep : CopyStep level owner recur copy)
    (hlevel : level ≤ vmmLevelPml4)
    (hrecur : ∀ l d, level = l + 1 → CopySpec l (if level = vmmLevelPml4 then
      d else owner) (recur d)) :
    CopySpec level owner copy := by
  intro s source loose h
  rcases hstep s source h.booked with
    ⟨s', heq, hsame, hrecords⟩ | ⟨d, s₁, -, halloc, hinstalled, hnodup, hnonzero, heq⟩
  · exact .inl ⟨s', heq, h.of_same hsame (liveFrames_congr hrecords), hsame⟩
  have hnew : s.tables d = none := h.tables_of_free halloc.free
  have hinv₁ := halloc.inv h hinstalled hlevel (fun hl => if_pos hl) hnodup hnonzero
  obtain ⟨t', hfill⟩ := copyEntries_spec source hlevel (fun l hl => hrecur l d hl) hnew
    nodup_tableIndices (Filling.of_allocates h halloc hinv₁) fun _ _ => rfl
  rcases finishCopy_spec h hnew hlevel hfill with hfail | ⟨s', u, heq', hinv, hext, hu⟩
  · rw [heq]
    exact .inl hfail
  · exact .inr ⟨d, s', u, heq.trans heq', hinv, hext, hnew, hu⟩

/-- **`clone_page_table` meets its specification** at every level. -/
theorem clonePageTable_spec (level : ℕ) (hlevel : level ≤ vmmLevelPml4) (owner : Word)
    (hroot : level = vmmLevelPml4 → owner = 0) :
    CopySpec level owner (clonePageTable level owner) :=
  (copies_rule CopyStep.spec).1 level hlevel owner hroot

/-- **`copy_page_table_subtree` meets its specification** below the PML4. -/
theorem copyPageTableSubtree_spec (level : ℕ) (hlevel : level ≤ vmmLevelPdpt) (owner : Word) :
    CopySpec level owner (copyPageTableSubtree level owner) :=
  (copies_rule CopyStep.spec).2 level hlevel owner

end Batos
