import Batos.Vmm.Lifecycle

/-!
# What the descent of `vmm_map_page` leaves alone

The steps of a descent only add: tables stay where they are, present entries keep
their words, and the tables of other roots are not touched at all.  `Paging.Grows`
says so, is transitive, and holds of the final store into an empty leaf entry as
well.  The steps before that store do not even change a translation.

`Paging.Descends` is a successful `vmm_map_page` up to its final store, in these
terms.
-/

namespace Batos

open Option (some)
open Tables (forest_edge insertTable_of_ne path writeEntry_of_ne writeEntry_self)

variable {t : Table} {i : Fin 512} {p pml4 va pa flags : Word} {s s' : Paging}

/-- Nothing is lost, and only tables of `owner` change. -/
structure Paging.Grows (owner : Word) (s s' : Paging) : Prop where
  keeps : ∀ {q t}, s.tables q = some t → ∃ t', s'.tables q = some t' ∧ t'.level = t.level ∧
    t'.owner = t.owner ∧ ∀ i, isPresent (t.entries i) = true → t'.entries i = t.entries i
  others : ∀ {q t}, s.tables q = some t → t.owner ≠ owner → s'.tables q = some t

namespace Paging.Grows

variable {owner : Word} {s s' s'' : Paging}

theorem refl (owner : Word) (s : Paging) : s.Grows owner s :=
  ⟨fun {_ t} ht => ⟨t, ht, rfl, rfl, fun _ _ => rfl⟩, fun ht _ => ht⟩

theorem trans (h₁ : s.Grows owner s') (h₂ : s'.Grows owner s'') : s.Grows owner s'' where
  keeps := by
    intro q t ht
    obtain ⟨t', ht', hl', ho', he'⟩ := h₁.keeps ht
    obtain ⟨t'', ht'', hl'', ho'', he''⟩ := h₂.keeps ht'
    refine ⟨t'', ht'', hl''.trans hl', ho''.trans ho', fun i hi => ?_⟩
    rw [he'' i (by rw [he' i hi]; exact hi), he' i hi]
  others := fun ht hne => h₂.others (h₁.others ht hne) hne

/-- A present entry of a registered table, in terms of memory. -/
theorem memory (h : s.Grows owner s') {q : Word} (ht : s.tables q = some t)
    (hi : isPresent (s.memory q i) = true) : s'.memory q i = s.memory q i := by
  obtain ⟨t', ht', -, -, he⟩ := h.keeps ht
  rw [memory_of_tables ht] at hi ⊢
  rw [memory_of_tables ht', he i hi]

/-- Pointers stay. -/
theorem edge (h : s.Grows owner s') {c : Word} (hedge : s.tables.forest.edge p i = some c) :
    s'.tables.forest.edge p i = some c := by
  cases ht : s.tables p with
  | none =>
      simp [Tables.forest, ht] at hedge
  | some t =>
      obtain ⟨t', ht', hl', -, he⟩ := h.keeps ht
      rw [forest_edge ht] at hedge
      rw [forest_edge ht', hl', he i (entryChild_eq_some.mp hedge).2.1]
      exact hedge

/-- A store into an empty entry of a table of this owner. -/
theorem of_write (ht : s.tables p = some t) (ho : t.owner = owner) {index : Fin 512}
    (hempty : isPresent (t.entries index) = false) (entry : Word) :
    s.Grows owner (s.write p index entry) := by
  refine ⟨fun {q u} hq => ?_, fun {q u} hq hne => ?_⟩
  · rw [tables_write]
    by_cases hqp : q = p
    · subst hqp
      obtain rfl := some.inj (ht.symm.trans hq)
      refine ⟨_, writeEntry_self ht index entry, rfl, rfl, fun i hi => ?_⟩
      refine Function.update_of_ne ?_ _ _
      rintro rfl
      rw [hempty] at hi
      cases hi
    · exact ⟨u, (writeEntry_of_ne hqp _ _).trans hq, rfl, rfl, fun _ _ => rfl⟩
  · rw [tables_write, writeEntry_of_ne ?_]
    · exact hq
    · rintro rfl
      obtain rfl := some.inj (ht.symm.trans hq)
      exact hne ho

end Paging.Grows

theorem Paging.Grows.path {owner : Word} (h : s.Grows owner s') {pt : Word}
    (hpath : s.tables.forest.descend (path vmmLevelPml4 va) pml4 = some pt) :
    s'.tables.forest.descend (path vmmLevelPml4 va) pml4 = some pt := by
  obtain ⟨pdpt, pd, h₃, h₂, h₁⟩ := Tables.edges_of_path hpath
  exact Tables.descend_path (h.edge h₃) (h.edge h₂) (h.edge h₁)

/-- The frames of new tables are the only frames taken. -/
structure Paging.Adds (s s' : Paging) : Prop where
  keeps : ∀ {q}, s.tables q ≠ none → s'.tables q ≠ none
  used : ∀ f, s'.pmm.used f = true ↔ s.pmm.used f = true ∨
    ∃ q, s.tables q = none ∧ s'.tables q ≠ none ∧ frameOf q = f

namespace Paging.Adds

variable {s s' s'' : Paging}

theorem of_eq (htables : ∀ q, s'.tables q = none ↔ s.tables q = none)
    (hused : ∀ f, s'.pmm.used f = s.pmm.used f) : s.Adds s' := by
  refine ⟨fun {q} hq => fun hnone => hq ((htables q).mp hnone), fun f => ?_⟩
  rw [hused]
  refine ⟨.inl, ?_⟩
  rintro (h | ⟨q, hnone, hsome, -⟩)
  · exact h
  · exact absurd ((htables q).mpr hnone) hsome

theorem trans (h₁ : s.Adds s') (h₂ : s'.Adds s'') : s.Adds s'' := by
  refine ⟨fun hq => h₂.keeps (h₁.keeps hq), fun f => ?_⟩
  rw [h₂.used, h₁.used]
  constructor
  · rintro ((h | ⟨q, hnone, hsome, hf⟩) | ⟨q, hnone, hsome, hf⟩)
    · exact .inl h
    · exact .inr ⟨q, hnone, h₂.keeps hsome, hf⟩
    · by_cases hq : s.tables q = none
      · exact .inr ⟨q, hq, hsome, hf⟩
      · exact absurd hnone (h₁.keeps hq)
  · rintro (h | ⟨q, hnone, hsome, hf⟩)
    · exact .inl (.inl h)
    · by_cases hq : s'.tables q = none
      · exact .inr ⟨q, hq, hsome, hf⟩
      · exact .inl (.inr ⟨q, hnone, hq, hf⟩)

/-- A store into memory registers nothing. -/
theorem of_write (s : Paging) (p : Word) (index : Fin 512) (entry : Word) :
    s.Adds (s.write p index entry) := by
  refine .of_eq (fun q => ?_) fun _ => rfl
  rw [tables_eq_none, tables_eq_none]
  exact Iff.rfl

end Paging.Adds

/-! ## One step -/

namespace Paging.ChildStep

variable {s s' : Paging} {parent flags owner c : Word} {index : Fin 512} {level : ℕ} {b : Bool}
  {t : Table} (hstep : s.ChildStep parent index flags level owner b c s') (h : s.Inv ∅)
  (htab : s.tables parent = some t) (hlevel : t.level = level + 1) (howner : t.owner = owner)

include hstep h htab howner in
theorem grows : s.Grows owner s' := by
  cases hstep with
  | existing edge => exact .refl owner s
  | created table parentLevel empty creates =>
      obtain rfl := some.inj (htab.symm.trans table)
      have hnew : ∀ {q u}, s.tables q = some u → q ≠ c := by
        rintro q u hq rfl
        rw [h.tables_of_free creates.free] at hq
        cases hq
      refine ⟨fun {q u} hq => ?_, fun {q u} hq hne => ?_⟩
      · rw [creates.tables]
        have hkept : s.tables.insertTable c level owner q = some u :=
          (insertTable_of_ne (hnew hq) _ _).trans hq
        by_cases hqp : q = parent
        · subst hqp
          obtain rfl := some.inj (htab.symm.trans hq)
          refine ⟨_, writeEntry_self hkept _ _, rfl, rfl, fun i hi => ?_⟩
          refine Function.update_of_ne ?_ _ _
          rintro rfl
          rw [empty] at hi
          cases hi
        · exact ⟨u, (writeEntry_of_ne hqp _ _).trans hkept, rfl, rfl, fun _ _ => rfl⟩
      · have hqp : q ≠ parent := by
          rintro rfl
          obtain rfl := some.inj (htab.symm.trans hq)
          exact hne howner
        rw [creates.tables, writeEntry_of_ne hqp, insertTable_of_ne (hnew hq)]
        exact hq

include hstep h in
theorem adds : s.Adds s' := by
  cases hstep with
  | existing edge => exact .of_eq (fun _ => Iff.rfl) fun _ => rfl
  | created table parentLevel empty creates =>
      have hcnone : s.tables c = none := h.tables_of_free creates.free
      have hpc : c ≠ parent := (ne_of_eq_none table hcnone).symm
      have hctab : s'.tables c ≠ none := by
        rw [creates.tables, writeEntry_of_ne hpc, Tables.insertTable_self]
        exact Option.some_ne_none _
      have hother : ∀ q, q ≠ c → (s'.tables q = none ↔ s.tables q = none) := by
        intro q hqc
        by_cases hqp : q = parent
        · subst hqp
          rw [creates.tables, table]
          simp [Tables.writeEntry, Tables.insertTable, Function.update_of_ne hqc, table]
        · rw [creates.tables, writeEntry_of_ne hqp, insertTable_of_ne hqc]
      refine ⟨fun {q} hq hnone => ?_, fun f => ?_⟩
      · by_cases hqc : q = c
        · exact hq (hqc ▸ hcnone)
        · exact hq ((hother q hqc).mp hnone)
      · rw [creates.pmm, Pmm.used_reserve, Bool.or_eq_true, decide_eq_true_eq, or_comm]
        refine or_congr_right ⟨?_, ?_⟩
        · rintro rfl
          exact ⟨c, hcnone, hctab, rfl⟩
        · rintro ⟨q, hnone, hsome, rfl⟩
          by_cases hqc : q = c
          · rw [hqc]
          · exact absurd ((hother q hqc).mpr hnone) hsome

include hstep h htab hlevel in
/-- The step leads along a pointer. -/
theorem edge : s'.tables.forest.edge parent index = some c := by
  cases hstep with
  | existing edge => exact edge
  | created table parentLevel empty creates =>
      have hpc : parent ≠ c := ne_of_eq_none htab (h.tables_of_free creates.free)
      have hparent : s'.tables parent =
          some { t with entries := Function.update t.entries index (tableEntry c flags) } := by
        rw [creates.tables]
        refine writeEntry_self ?_ _ _
        rw [insertTable_of_ne hpc]
        exact htab
      rw [forest_edge hparent]
      simp only [Function.update_self]
      exact entryChild_tableEntry (by omega) creates.aligned flags

include hstep h htab hlevel howner in
/-- The step arrives at a table of the next level, with the same owner. -/
theorem child (hinv : s'.Inv ∅) : ∃ u, s'.tables c = some u ∧ u.level = level ∧
    u.owner = owner := by
  obtain ⟨t', ht', hl', ho', -⟩ := (hstep.grows h htab howner).keeps htab
  have hedge := hstep.edge h htab hlevel
  rw [forest_edge ht'] at hedge
  obtain ⟨u, hu, hul, huo⟩ := Tables.child_of_wf hinv.wf ht' hedge
  exact ⟨u, hu, by omega, huo.trans (ho'.trans howner)⟩

include hstep h htab howner in
/-- The step changes no walk. -/
theorem lookup (hbelow : level < vmmLevelPml4) (root va : Word) :
    s'.tables.lookup root va = s.tables.lookup root va := by
  cases hstep with
  | existing edge => rfl
  | created table parentLevel empty creates =>
      obtain rfl := some.inj (htab.symm.trans table)
      rw [creates.tables]
      exact Tables.lookup_creates h.wf htab empty parentLevel howner
        (h.tables_of_free creates.free) creates.aligned hbelow root va

end Paging.ChildStep

/-! ## The whole descent -/

/-- A successful `vmm_map_page` up to its final store: the page table of the address
is there, its entry is empty, and nothing else has changed for anyone. -/
structure Paging.Descends (s : Paging) (pml4 va : Word) (s' : Paging) (pt : Word) (t : Table) :
    Prop where
  inv : s'.Inv ∅
  grows : s.Grows pml4 s'
  adds : s.Adds s'
  lookup : ∀ root va', s'.tables.lookup root va' = s.tables.lookup root va'
  path : s'.tables.forest.descend (path vmmLevelPml4 va) pml4 = some pt
  table : s'.tables pt = some t
  level : t.level = vmmLevelPt
  owner : t.owner = pml4
  empty : isPresent (t.entries (ptIndex va)) = false

theorem Paging.Maps.descends (h : s.Inv ∅) (hmaps : s.Maps pml4 va pa flags s') :
    ∃ s₃ pt t, s.Descends pml4 va s₃ pt t ∧
      s' = s₃.write pt (ptIndex va) (leafEntry pa flags) := by
  obtain ⟨t₃, ht₃, hl₃, ho₃⟩ := hmaps.root
  obtain ⟨pdpt, pd, pt, b₂, b₁, b₀, s₁, s₂, s₃, t, hstep₂, hstep₁, hstep₀, hinv₁, hinv₂, hinv₃,
    ht, hl, ho, hempty, rfl⟩ := hmaps.descent
  obtain ⟨t₂, ht₂, hl₂, ho₂⟩ := hstep₂.child h ht₃ hl₃ ho₃ hinv₁
  obtain ⟨t₁, ht₁, hl₁, ho₁⟩ := hstep₁.child hinv₁ ht₂ hl₂ ho₂ hinv₂
  have hgrows₂ := hstep₂.grows h ht₃ ho₃
  have hgrows₁ := hstep₁.grows hinv₁ ht₂ ho₂
  have hgrows₀ := hstep₀.grows hinv₂ ht₁ ho₁
  refine ⟨s₃, pt, t, ⟨hinv₃, hgrows₂.trans (hgrows₁.trans hgrows₀),
    (hstep₂.adds h).trans ((hstep₁.adds hinv₁).trans (hstep₀.adds hinv₂)), fun root va' => ?_, ?_,
    ht, hl, ho, hempty⟩, rfl⟩
  · rw [hstep₀.lookup hinv₂ ht₁ ho₁ (by decide), hstep₁.lookup hinv₁ ht₂ ho₂ (by decide),
      hstep₂.lookup h ht₃ ho₃ (by decide)]
  · exact Tables.descend_path (hgrows₀.edge (hgrows₁.edge (hstep₂.edge h ht₃ hl₃)))
      (hgrows₀.edge (hstep₁.edge hinv₁ ht₂ hl₂)) (hstep₀.edge hinv₂ ht₁ hl₁)

/-- A successful call only adds. -/
theorem Paging.Maps.grows (h : s.Inv ∅) (hmaps : s.Maps pml4 va pa flags s') : s.Grows pml4 s' := by
  obtain ⟨s₃, pt, t, hdesc, rfl⟩ := hmaps.descends h
  exact hdesc.grows.trans (.of_write hdesc.table hdesc.owner hdesc.empty _)

theorem Paging.Maps.adds (h : s.Inv ∅) (hmaps : s.Maps pml4 va pa flags s') : s.Adds s' := by
  obtain ⟨s₃, pt, t, hdesc, rfl⟩ := hmaps.descends h
  exact hdesc.adds.trans (.of_write s₃ pt _ _)

end Batos
