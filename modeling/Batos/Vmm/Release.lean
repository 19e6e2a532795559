import Batos.Vmm.Map

/-!
# Reclaiming a tree

`destroy_address_space_tree` and `discard_page_table_tree` walk down a tree, clear
the entries on the way and release the tables on the way back.  The relation
`Paging.Prunes p` says what any part of such a run may do — everything stays as it
is outside the tree of `p`, and inside it entries are only cleared and tables only
released — and it composes along the recursion.  `releaseTree_spec` adds what the
complete run achieves: the root is gone and the invariant holds without it, which
by the shape of the forest means that the whole tree is gone.

`Paging.Frame` is the frame rule every operation of `vmm.c` obeys: memory that
neither `vmm.c` nor the free pool owns is left alone.
-/

namespace Batos

open Tables (forest_edge forest_info removeTable_of_ne removeTable_self writeEntry_of_ne
    writeEntry_self)

variable {s : Paging} {p q : Word} {t : Table} {loose : Set Word} {level : ℕ}
  {recur : Paging → Word → Paging}

/-- Foreign frames stay foreign, with their contents and their PMM bit. -/
structure Paging.Frame (s s' : Paging) : Prop where
  geometry : s.pmm.SameGeometry s'.pmm
  foreign : ∀ {q}, s.Foreign q →
    s'.Foreign q ∧ s'.memory q = s.memory q ∧
      s'.pmm.used (frameOf q) = s.pmm.used (frameOf q)

namespace Paging.Frame

variable {s s' s'' : Paging}

@[refl] theorem refl (s : Paging) : s.Frame s := ⟨.refl _, fun h => ⟨h, rfl, rfl⟩⟩

theorem trans (h₁ : s.Frame s') (h₂ : s'.Frame s'') : s.Frame s'' := by
  refine ⟨h₁.geometry.trans h₂.geometry, fun hq => ?_⟩
  obtain ⟨hq₁, hm₁, hu₁⟩ := h₁.foreign hq
  obtain ⟨hq₂, hm₂, hu₂⟩ := h₂.foreign hq₁
  exact ⟨hq₂, hm₂.trans hm₁, hu₂.trans hu₁⟩

end Paging.Frame

theorem Paging.Same.frame {s' : Paging} (h : s.Same s') : s.Frame s' :=
  ⟨h.geometry, fun hq => ⟨(h.foreign hq).1, (h.foreign hq).2, h.used _⟩⟩

/-- A store into a registered table. -/
theorem frame_write (htab : s.tables p = some t) (index : Fin 512) (entry : Word) :
    s.Frame (s.write p index entry) := by
  refine ⟨.refl _, fun {q} hq => ?_⟩
  have hne : q ≠ p := (ne_of_eq_none htab hq.2.1).symm
  refine ⟨⟨hq.1, ?_, hq.2.2⟩, memory_write_of_ne hne _ _, rfl⟩
  rw [tables_write, writeEntry_of_ne hne]
  exact hq.2.1

/-! ## The relation -/

/-- What part of a reclamation of the tree of `p` may do. -/
structure Paging.Prunes (p : Word) (s s' : Paging) : Prop where
  geometry : s.pmm.SameGeometry s'.pmm
  outside : ∀ q, ¬ s.tables.forest.Desc p q → s'.tables q = s.tables q
  sub : ∀ {q t'}, s'.tables q = some t' → ∃ t, s.tables q = some t ∧ t'.level = t.level ∧
    t'.owner = t.owner ∧ ∀ i, t'.entries i = t.entries i ∨ t'.entries i = 0
  used : ∀ f, s'.pmm.used f = true ↔ s.pmm.used f = true ∧
    ¬ ∃ q, s.tables q ≠ none ∧ s'.tables q = none ∧ frameOf q = f
  memory : ∀ q, s.tables q = none → s'.memory q = s.memory q

namespace Paging.Prunes

variable {s s' s'' : Paging} {p c : Word}

theorem refl (p : Word) (s : Paging) : Prunes p s s where
  geometry := .refl _
  outside := fun _ _ => rfl
  sub := fun {_ t'} h => ⟨t', h, rfl, rfl, fun _ => .inl rfl⟩
  used := fun _ => ⟨fun h => ⟨h, fun ⟨_, hsome, hnone, _⟩ => hsome hnone⟩, fun h => h.1⟩
  memory := fun _ _ => rfl

theorem tables_none (h : Prunes p s s') (hq : s.tables q = none) :
    s'.tables q = none := by
  cases hq' : s'.tables q with
  | none => rfl
  | some t' =>
      obtain ⟨t, ht, -⟩ := h.sub hq'
      rw [hq] at ht
      cases ht

/-- Pruning adds no pointer. -/
theorem edge_sub (h : Prunes p s s') {d : Word} {i : Fin 512}
    (hedge : s'.tables.forest.edge q i = some d) : s.tables.forest.edge q i = some d := by
  cases hq' : s'.tables q with
  | none => simp [Tables.forest, hq'] at hedge
  | some t' =>
      obtain ⟨t, ht, hlevel, -, hentries⟩ := h.sub hq'
      rw [forest_edge hq'] at hedge
      rw [forest_edge ht]
      rcases hentries i with hsame | hzero
      · rw [← hlevel, ← hsame]
        exact hedge
      · rw [hzero] at hedge
        have hnone : entryChild t'.level 0 = none := entryChild_zero t'.level
        rw [hnone] at hedge
        cases hedge

/-- Pruning part of the tree of `p`, then part of the tree of a descendant. -/
theorem trans (h₁ : Prunes p s s') (hc : s.tables.forest.Desc p c) (h₂ : Prunes c s' s'') :
    Prunes p s s'' where
  geometry := h₁.geometry.trans h₂.geometry
  outside := by
    intro q hq
    rw [h₂.outside q fun hdesc => hq ?_, h₁.outside q hq]
    exact Relation.ReflTransGen.trans hc (Forest.Desc.mono (fun _ _ _ => h₁.edge_sub) hdesc)
  sub := by
    intro q t'' h''
    obtain ⟨t', h', hl', ho', he'⟩ := h₂.sub h''
    obtain ⟨t, ht, hl, ho, he⟩ := h₁.sub h'
    refine ⟨t, ht, hl'.trans hl, ho'.trans ho, fun i => ?_⟩
    rcases he' i with hsame | hzero
    · rw [hsame]
      exact he i
    · exact .inr hzero
  used := by
    intro f
    rw [h₂.used, h₁.used, and_assoc, and_congr_right_iff]
    intro _
    constructor
    · rintro ⟨hfirst, hsecond⟩ ⟨q, hq, hq'', hf⟩
      by_cases hmid : s'.tables q = none
      · exact hfirst ⟨q, hq, hmid, hf⟩
      · exact hsecond ⟨q, hmid, hq'', hf⟩
    · intro hnone
      refine ⟨?_, ?_⟩
      · rintro ⟨q, hq, hq', hf⟩
        exact hnone ⟨q, hq, h₂.tables_none hq', hf⟩
      · rintro ⟨q, hq', hq'', hf⟩
        exact hnone ⟨q, fun hq => hq' (h₁.tables_none hq), hq'', hf⟩
  memory := by
    intro q hq
    rw [h₂.memory q (h₁.tables_none hq), h₁.memory q hq]

/-- Clearing an entry of the root of the tree. -/
theorem clear (htab : s.tables p = some t) (index : Fin 512) :
    Prunes p s (s.write p index 0) where
  geometry := .refl _
  outside := by
    intro q hq
    rw [tables_write]
    refine writeEntry_of_ne ?_ _ _
    rintro rfl
    exact hq (Forest.Desc.refl _ _)
  sub := by
    intro q t' hq
    rw [tables_write] at hq
    by_cases hqp : q = p
    · subst hqp
      rw [writeEntry_self htab] at hq
      obtain rfl := Option.some.inj hq
      refine ⟨t, htab, rfl, rfl, fun i => ?_⟩
      by_cases hi : i = index
      · subst hi
        exact .inr (Function.update_self _ _ _)
      · exact .inl (Function.update_of_ne hi _ _)
    · rw [writeEntry_of_ne hqp] at hq
      exact ⟨t', hq, rfl, rfl, fun _ => .inl rfl⟩
  used := by
    intro f
    refine ⟨fun h => ⟨h, ?_⟩, fun h => h.1⟩
    rintro ⟨q, hq, hq', -⟩
    rw [tables_write] at hq'
    by_cases hqp : q = p
    · subst hqp
      rw [writeEntry_self htab] at hq'
      cases hq'
    · rw [writeEntry_of_ne hqp] at hq'
      exact hq hq'
  memory := by
    intro q hq
    refine memory_write_of_ne ?_ _ _
    rintro rfl
    rw [hq] at htab
    cases htab

/-- Releasing the root of the tree. -/
theorem release (h : s.Inv loose) (htab : s.tables p = some t) :
    Prunes p s (releasePageTable s p) := by
  obtain ⟨htables, hpmm, hmemory, -⟩ := releasePageTable_effect h.booked htab
  refine ⟨?_, fun q hq => ?_, fun {q t'} hq => ?_, fun f => ?_, fun q _ => by rw [hmemory]⟩
  · rw [hpmm]
    exact s.pmm.sameGeometry_release _
  · rw [htables]
    refine removeTable_of_ne ?_
    rintro rfl
    exact hq (Forest.Desc.refl _ _)
  · have hne : q ≠ p := by
      rintro rfl
      rw [htables, removeTable_self] at hq
      cases hq
    rw [htables, removeTable_of_ne hne] at hq
    exact ⟨t', hq, rfl, rfl, fun _ => .inl rfl⟩
  · rw [hpmm, Pmm.used_release, Bool.and_eq_true, and_comm, and_congr_right_iff]
    intro _
    simp only [Bool.not_eq_true', decide_eq_false_iff_not]
    constructor
    · rintro hf ⟨q, hq, hq', hframe⟩
      by_cases hqp : q = p
      · exact hf (hqp ▸ hframe.symm)
      · rw [htables, removeTable_of_ne hqp] at hq'
        exact hq hq'
    · rintro hnone rfl
      refine hnone ⟨p, by rw [htab]; exact Option.some_ne_none _, ?_, rfl⟩
      rw [htables, removeTable_self]

theorem frame (h : s.Inv loose) (hprunes : Prunes p s s') : s.Frame s' := by
  refine ⟨hprunes.geometry, fun {q} hq => ?_⟩
  have hused : s'.pmm.used (frameOf q) = s.pmm.used (frameOf q) := by
    rw [Bool.eq_iff_iff, hprunes.used]
    refine ⟨fun hand => hand.1, fun hu => ⟨hu, ?_⟩⟩
    rintro ⟨r, hr, -, hframe⟩
    obtain ⟨t, ht⟩ := Option.ne_none_iff_exists'.mp hr
    obtain rfl := frameOf_inj (h.frames ht).aligned hq.1 hframe
    exact hr hq.2.1
  refine ⟨⟨hq.1, hprunes.tables_none hq.2.1, fun hfree => hq.2.2 ?_⟩,
    hprunes.memory q hq.2.1, hused⟩
  exact ⟨hfree.1, by rw [← hprunes.geometry.totalFrames]; exact hfree.2.1,
    by rw [← hused]; exact hfree.2.2⟩

end Paging.Prunes

/-! ## The recursion -/

/-- What a recursive call is expected to do with the root of a loose tree. -/
def ReleaseSpec (level : ℕ) (recur : Paging → Word → Paging) : Prop :=
  ∀ (s : Paging) (p : Word) (t : Table) (loose : Set Word), s.Inv (insert p loose) → p ∉ loose →
    s.tables p = some t → t.level = level →
    (recur s p).Inv loose ∧ (recur s p).tables p = none ∧ Paging.Prunes p s (recur s p)

/-- One turn of the loop over the entries. -/
theorem releaseEntry_spec (hrecur : ReleaseSpec level recur) (h : s.Inv loose)
    (htab : s.tables p = some t) (hlevel : t.level = level + 1) (index : Fin 512) :
    (releaseEntry recur p s index).Inv loose ∧ Paging.Prunes p s (releaseEntry recur p s index) ∧
      ∃ t', (releaseEntry recur p s index).tables p = some t' ∧ t'.level = t.level ∧
        isPresent (t'.entries index) = false ∧
        ∀ i, isPresent (t.entries i) = false → isPresent (t'.entries i) = false := by
  unfold releaseEntry
  rw [memory_of_tables htab]
  dsimp only
  by_cases hpresent : isPresent (t.entries index) = false
  · rw [if_pos hpresent]
    exact ⟨h, .refl p s, t, htab, rfl, hpresent, fun _ hi => hi⟩
  rw [if_neg hpresent]
  -- the root after its entry has been cleared
  have hwrite : (s.write p index 0).tables p =
      some { t with entries := Function.update t.entries index 0 } := by
    rw [tables_write, writeEntry_self htab]
  have hclear := Paging.Prunes.clear htab index
  have hcleared : ∀ i, isPresent (t.entries i) = false ∨ i = index →
      isPresent (Function.update t.entries index 0 i) = false := by
    intro i hi
    by_cases hindex : i = index
    · subst hindex
      rw [Function.update_self]
      exact isPresent_zero
    · rw [Function.update_of_ne hindex]
      exact hi.resolve_right hindex
  by_cases hhuge : isHuge (t.entries index) = true
  · rw [if_pos hhuge]
    refine ⟨?_, hclear, _, hwrite, rfl, hcleared index (.inr rfl),
      fun i hi => hcleared i (.inl hi)⟩
    exact inv_write_leaf h htab (fun _ => rfl) (entryChild_of_huge hhuge) (entryChild_zero _)
  · rw [if_neg hhuge]
    set c := entryAddress (t.entries index) with hcdef
    have hchild : entryChild t.level (t.entries index) = some c :=
      entryChild_eq_some.mpr ⟨by omega, by simpa using hpresent, by simpa using hhuge, rfl⟩
    have hedge : s.tables.forest.edge p index = some c := by
      rw [forest_edge htab]
      exact hchild
    obtain ⟨l, o, hpi, hci⟩ := h.wf.edge_info hedge
    rw [forest_info htab] at hpi
    obtain ⟨hl, -⟩ := Prod.mk.inj (Option.some.inj hpi)
    obtain ⟨u, hu, hul, -⟩ := Tables.exists_of_forest_info hci
    have hne : c ≠ p := by
      rintro heq
      rw [heq, htab] at hu
      obtain rfl := Option.some.inj hu
      omega
    have hu' : (s.write p index 0).tables c = some u := by
      rw [tables_write, writeEntry_of_ne hne]
      exact hu
    have hcloose : c ∉ loose := fun hmem => h.wf.loose_free hmem hedge
    have hinv₁ := inv_write_unlink h htab hchild
    obtain ⟨hinv₂, -, hprunes⟩ := hrecur _ c u loose hinv₁ hcloose hu' (by omega)
    have hp : ¬ (s.write p index 0).tables.forest.Desc c p := by
      intro hdesc
      obtain ⟨l', hle, hinfo⟩ := hinv₁.wf.info_of_desc (forest_info hu') hdesc
      rw [forest_info hwrite] at hinfo
      obtain ⟨hlevel', -⟩ := Prod.mk.inj (Option.some.inj hinfo)
      dsimp only at hlevel'
      omega
    refine ⟨hinv₂, hclear.trans (Forest.Desc.head hedge (Forest.Desc.refl _ _)) hprunes, _,
      (hprunes.outside p hp).trans hwrite, rfl, hcleared index (.inr rfl),
      fun i hi => hcleared i (.inl hi)⟩

/-- The loop over the entries. -/
theorem foldl_releaseEntry (hrecur : ReleaseSpec level recur) (indices : List (Fin 512))
    (h : s.Inv loose) (htab : s.tables p = some t) (hlevel : t.level = level + 1) :
    (indices.foldl (releaseEntry recur p) s).Inv loose ∧
      Paging.Prunes p s (indices.foldl (releaseEntry recur p) s) ∧
      ∃ t', (indices.foldl (releaseEntry recur p) s).tables p = some t' ∧ t'.level = t.level ∧
        (∀ i ∈ indices, isPresent (t'.entries i) = false) ∧
        ∀ i, isPresent (t.entries i) = false → isPresent (t'.entries i) = false := by
  induction indices generalizing s t with
  | nil =>
      exact ⟨h, .refl p s, t, htab, rfl, fun _ hi => absurd hi List.not_mem_nil, fun _ hi => hi⟩
  | cons index indices ih =>
      obtain ⟨hinv₁, hprunes₁, t₁, ht₁, hl₁, hindex, hkeep₁⟩ :=
        releaseEntry_spec hrecur h htab hlevel index
      obtain ⟨hinv₂, hprunes₂, t₂, ht₂, hl₂, hall, hkeep₂⟩ := ih hinv₁ ht₁ (by omega)
      refine ⟨hinv₂, hprunes₁.trans (Forest.Desc.refl _ _) hprunes₂, t₂, ht₂, hl₂.trans hl₁, ?_,
        fun i hi => hkeep₂ i (hkeep₁ i hi)⟩
      intro i hi
      rcases List.mem_cons.mp hi with rfl | hi
      · exact hkeep₂ i hindex
      · exact hall i hi

/-- **Reclaiming a tree.**  The root is released, the invariant holds without it, and
nothing outside its tree has changed. -/
theorem releaseTree_spec (skipZero : Bool) (level : ℕ) :
    ReleaseSpec level (releaseTree skipZero level) := by
  induction level with
  | zero =>
      intro s p t loose h hp htab hlevel
      have hne : ¬ (skipZero = true ∧ p = 0) := fun hand => (h.frames htab).nonzero hand.2
      rw [releaseTree, if_neg hne]
      refine ⟨inv_releasePageTable h hp htab fun i => ?_, ?_, .release h htab⟩
      · rw [hlevel]
        rfl
      · rw [(releasePageTable_effect h.booked htab).1, removeTable_self]
  | succ level ih =>
      intro s p t loose h hp htab hlevel
      have hne : ¬ (skipZero = true ∧ p = 0) := fun hand => (h.frames htab).nonzero hand.2
      rw [releaseTree, if_neg hne]
      obtain ⟨hinv, hprunes, t', ht', hl', hall, -⟩ :=
        foldl_releaseEntry ih tableIndices h htab hlevel
      refine ⟨inv_releasePageTable hinv hp ht' fun i => ?_, ?_,
        hprunes.trans (Forest.Desc.refl _ _) (.release hinv ht')⟩
      · exact entryChild_of_not_present (hall i (mem_tableIndices i))
      · rw [(releasePageTable_effect hinv.booked ht').1, removeTable_self]

end Batos
