import Batos.Sched.Reclaim

/-!
# The frames of the stacks

Which frames are in use, and for what.  A frame that is in use holds a page table, or is on
loan: somebody else has taken it from the PMM, or it was never there to be taken.  The set
bits of the bitmap are the tables and the loans (`Paging.Booked.setFrames_eq`), so to
account for them it is enough to follow the two separately.

* Tables are only ever added to the hierarchy in which something is mapped
  (`Paging.Enlarges`), and each new one takes a frame that was not in use.
* `task_map_stack` takes out four loans when it succeeds, and none when it fails
  (`taskCreate_loans`); `task_unmap_stack` pays back those of its task and no other
  (`unmapStackPages_frees`).
-/

namespace Batos

open List

variable {q flags : Word} {pages : List (Fin 4)}

/-! ## Tables and loans -/

namespace Paging

/-- The frames in use that hold no page table. -/
def loans (s : Paging) : Finset ℕ :=
  (Finset.range s.pmm.totalFrames).filter fun f =>
    s.pmm.used f = true ∧ f ∉ s.liveFrames.map frameOf

/-- The root under which a frame is registered. -/
def ownerOf (s : Paging) (q : Word) : Option Word := (s.tables q).map Table.owner

/-- The number of tables registered under a root. -/
def hierarchySize (s : Paging) (root : Word) : ℕ :=
  (s.liveFrames.filter fun q => decide (s.ownerOf q = some root)).length

variable {s s' s'' : Paging} {root : Word}

theorem ownerOf_eq_none : s.ownerOf q = none ↔ s.tables q = none := Option.map_eq_none_iff

theorem ownerOf_congr (h : s'.records = s.records) : s'.ownerOf = s.ownerOf := by
  funext q
  unfold ownerOf Paging.tables findPageTableRecord
  rw [h, Option.map_map, Option.map_map]
  rfl

theorem loans_congr (hpmm : s'.pmm = s.pmm) (hrecords : s'.records = s.records) :
    s'.loans = s.loans := by
  unfold loans
  rw [hpmm, liveFrames_congr hrecords]

theorem Booked.mem_liveFrames (h : s.Booked) : q ∈ s.liveFrames ↔ s.tables q ≠ none :=
  ⟨tables_ne_none_of_mem h.nonzero, mem_liveFrames_of_tables⟩

theorem Booked.mem_loans (h : s.Booked) {f : ℕ} :
    f ∈ s.loans ↔ f < s.pmm.totalFrames ∧ s.pmm.used f = true ∧
      ∀ q, s.tables q ≠ none → frameOf q ≠ f := by
  rw [loans, Finset.mem_filter, Finset.mem_range]
  refine and_congr_right fun _ => and_congr_right fun _ => ?_
  rw [mem_map, not_exists]
  refine forall_congr' fun q => ?_
  rw [not_and, h.mem_liveFrames]

theorem Booked.releases (h : s.Booked) (hq : s.tables q ≠ none) : s.pmm.Releases q := by
  obtain ⟨t, ht⟩ := Option.ne_none_iff_exists'.mp hq
  exact h.frames ht

/-- A frame on loan can be given back. -/
theorem Booked.releases_of_mem_loans (h : s'.Booked) {a : Word} (hrel : s.pmm.Releases a)
    (hgeometry : s.pmm.SameGeometry s'.pmm) (hloan : frameOf a ∈ s'.loans) : s'.pmm.Releases a :=
  hrel.of_sameGeometry hgeometry (h.mem_loans.mp hloan).2.1

/-- Giving frames back, and nothing else. -/
theorem mem_loans_of_freed {freed : ℕ → Prop} (hrecords : s'.records = s.records)
    (hgeometry : s.pmm.SameGeometry s'.pmm)
    (hused : ∀ f, s'.pmm.used f = true ↔ s.pmm.used f = true ∧ ¬ freed f) (f : ℕ) :
    f ∈ s'.loans ↔ f ∈ s.loans ∧ ¬ freed f := by
  rw [loans, loans, Finset.mem_filter, Finset.mem_filter, Finset.mem_range, Finset.mem_range,
    hgeometry.totalFrames, liveFrames_congr hrecords, hused]
  tauto

/-- **A frame in use is a table or on loan.** -/
theorem Booked.setFrames_eq (h : s.Booked) :
    s.pmm.setFrames = s.loans.card + s.liveFrames.length := by
  have hinj : ∀ p ∈ s.liveFrames, ∀ q ∈ s.liveFrames, frameOf p = frameOf q → p = q := by
    intro p hp q hq hf
    exact frameOf_inj (h.releases (h.mem_liveFrames.mp hp)).aligned
      (h.releases (h.mem_liveFrames.mp hq)).aligned hf
  have hnodup : (s.liveFrames.map frameOf).Nodup := (nodup_map_iff_inj_on h.nodup).mpr hinj
  have htables : ((Finset.range s.pmm.totalFrames).filter fun f => s.pmm.used f = true).filter
      (fun f => f ∈ s.liveFrames.map frameOf) = (s.liveFrames.map frameOf).toFinset := by
    ext f
    rw [Finset.mem_filter, Finset.mem_filter, Finset.mem_range, mem_toFinset,
      and_iff_right_iff_imp]
    intro hf
    obtain ⟨q, hq, rfl⟩ := mem_map.mp hf
    have hrel := h.releases (h.mem_liveFrames.mp hq)
    exact ⟨hrel.inRange, hrel.used⟩
  have hsplit := Finset.card_filter_add_card_filter_not
    (s := (Finset.range s.pmm.totalFrames).filter fun f => s.pmm.used f = true)
    (fun f => f ∈ s.liveFrames.map frameOf)
  rw [htables, toFinset_card_of_nodup hnodup, length_map, Finset.filter_filter] at hsplit
  rw [Pmm.setFrames, ← hsplit, loans]
  exact Nat.add_comm _ _

/-! ## Growing hierarchies -/

/-- Every table is still registered under its root, and new ones under the given root
only. -/
structure Enlarges (root : Word) (s s' : Paging) : Prop where
  keeps : ∀ ⦃q r⦄, s.ownerOf q = some r → s'.ownerOf q = some r
  new : ∀ ⦃q r⦄, s'.ownerOf q = some r → s.ownerOf q = some r ∨ r = root

theorem Enlarges.of_eq (h : s'.ownerOf = s.ownerOf) : s.Enlarges root s' :=
  ⟨fun _ _ hq => h ▸ hq, fun _ _ hq => .inl (h ▸ hq)⟩

theorem Enlarges.trans (h₁ : s.Enlarges root s') (h₂ : s'.Enlarges root s'') :
    s.Enlarges root s'' := by
  refine ⟨fun q r hq => h₂.keeps (h₁.keeps hq), fun q r hq => ?_⟩
  rcases h₂.new hq with hold | hroot
  · exact h₁.new hold
  · exact .inr hroot

/-- **The tables that are not under the root are the same ones.** -/
theorem Enlarges.hierarchySize_eq (h : s.Enlarges root s') (hs : s.Booked) (hs' : s'.Booked) :
    s'.liveFrames.length + s.hierarchySize root = s.liveFrames.length + s'.hierarchySize root := by
  have hmem : ∀ {u : Paging}, u.Booked → ∀ q,
      q ∈ u.liveFrames.filter (fun q => ! decide (u.ownerOf q = some root)) ↔
        ∃ r, r ≠ root ∧ u.ownerOf q = some r := by
    intro u hu q
    rw [mem_filter, hu.mem_liveFrames, ← ownerOf_eq_none.ne]
    cases hq : u.ownerOf q with
    | none => simp
    | some r => simp
  have hperm : (s.liveFrames.filter fun q => ! decide (s.ownerOf q = some root)).Perm
      (s'.liveFrames.filter fun q => ! decide (s'.ownerOf q = some root)) := by
    rw [perm_ext_iff_of_nodup (hs.nodup.filter _) (hs'.nodup.filter _)]
    intro q
    rw [hmem hs, hmem hs']
    refine exists_congr fun r => and_congr_right fun hne => ⟨fun hq => h.keeps hq, fun hq => ?_⟩
    exact (h.new hq).resolve_right hne
  have hcount := hperm.length_eq
  have hsplit := length_eq_length_filter_add (l := s.liveFrames)
    fun q => decide (s.ownerOf q = some root)
  have hsplit' := length_eq_length_filter_add (l := s'.liveFrames)
    fun q => decide (s'.ownerOf q = some root)
  unfold hierarchySize
  omega

/-- A step of the descent. -/
theorem ChildStep.enlarges {parent c : Word} {index : Fin 512} {level : ℕ} {b : Bool}
    (hstep : s.ChildStep parent index flags level root b c s') (h : s.Inv ∅) :
    s.Enlarges root s' := by
  cases hstep with
  | existing edge => exact .of_eq rfl
  | @created _ _ t table parentLevel empty creates =>
      have hcnone : s.tables c = none := h.tables_of_free creates.free
      have hcp : c ≠ parent := (ne_of_eq_none table hcnone).symm
      have hnew : s'.ownerOf c = some root := by
        rw [ownerOf, creates.tables, Tables.writeEntry_of_ne hcp, Tables.insertTable_self]
        rfl
      have hold : ∀ q, q ≠ c → s'.ownerOf q = s.ownerOf q := by
        intro q hqc
        have hkept : s.tables.insertTable c level root q = s.tables q :=
          Tables.insertTable_of_ne hqc _ _
        rw [ownerOf, creates.tables]
        by_cases hqp : q = parent
        · subst hqp
          rw [Tables.writeEntry_self (hkept.trans table), ownerOf, table]
          rfl
        · rw [Tables.writeEntry_of_ne hqp, hkept]
          rfl
      refine ⟨fun q r hq => ?_, fun q r hq => ?_⟩
      · rw [hold q, hq]
        rintro rfl
        rw [ownerOf, hcnone] at hq
        cases hq
      · by_cases hqc : q = c
        · rw [hqc, hnew, Option.some.injEq] at hq
          exact .inr hq.symm
        · exact .inl ((hold q hqc).symm.trans hq)

theorem Maps.enlarges {va pa : Word} (hmaps : s.Maps root va pa flags s') (h : s.Inv ∅) :
    s.Enlarges root s' := by
  obtain ⟨pdpt, pd, pt, b₂, b₁, b₀, s₁, s₂, s₃, t, hstep₂, hstep₁, hstep₀, hinv₁,
    hinv₂, -, -, -, -, -, rfl⟩ := hmaps.descent
  have hdescent := (hstep₂.enlarges h).trans ((hstep₁.enlarges hinv₁).trans (hstep₀.enlarges hinv₂))
  exact hdescent.trans (.of_eq (ownerOf_congr rfl))

/-- A new table takes a frame that was not in use. -/
theorem Frame.unused (hframe : s.Frame s') (h' : s'.Booked) (hnone : s.tables q = none)
    (hsome : s'.tables q ≠ none) : s.pmm.used (frameOf q) = false := by
  by_contra hused
  rw [Bool.not_eq_false] at hused
  have hforeign : s.Foreign q := by
    refine ⟨(h'.releases hsome).aligned, hnone, fun hfree => ?_⟩
    rw [hfree.2.2] at hused
    cases hused
  exact hsome (hframe.foreign hforeign).1.2.1

end Paging

/-! ## Mapping a stack -/

/-- Tables have been added to a hierarchy, on frames that were not in use. -/
structure Paging.Accrues (root : Word) (s s' : Paging) : Prop where
  geometry : s.pmm.SameGeometry s'.pmm
  enlarges : s.Enlarges root s'
  unused : ∀ ⦃q⦄, s.tables q = none → s'.tables q ≠ none → s.pmm.used (frameOf q) = false

section Mapping

variable {root base : Word} {s s' : Paging} {frames : Fin 4 → Option Word}

theorem Paging.Accrues.refl (root : Word) (s : Paging) : s.Accrues root s :=
  ⟨.refl _, .of_eq rfl, fun _ hnone hsome => absurd hnone hsome⟩

/-- Steps that register nothing. -/
theorem Paging.Accrues.of_eq (h : s.Accrues root s') {s'' : Paging}
    (howner : s''.ownerOf = s'.ownerOf) (hgeometry : s'.pmm.SameGeometry s''.pmm) :
    s.Accrues root s'' := by
  refine ⟨h.geometry.trans hgeometry, h.enlarges.trans (.of_eq howner), fun q hnone hsome =>
    h.unused hnone ?_⟩
  rw [← ownerOf_eq_none.ne, howner] at hsome
  exact ownerOf_eq_none.ne.mp hsome

/-- **The tables the mapping loop adds.** -/
theorem mapStackPages_accrues (hwin : StackWindow base) (hnodup : pages.Nodup)
    (h : Staged root base s frames s') (hpages : ∀ page ∈ pages, frames page = none)
    (haccrues : s.Accrues root s') (recorded : Fin 4 → Word) :
    s.Accrues root (mapStackPages root base pages s' recorded).2.1 := by
  induction pages generalizing frames s' recorded with
  | nil => exact haccrues
  | cons page pages ih =>
      obtain ⟨hother, hrest⟩ := nodup_cons.mp hnodup
      rw [mapStackPages]
      rcases pmmAllocFrame_cases s'.pmm with ⟨heq, -⟩ | ⟨f, hfree, -, hinstalled, heq⟩
      · simp only [heq, if_true]
        exact haccrues
      have hne := (h.inv.sound.releases_reserve hinstalled hfree).nonzero
      simp only [heq, if_neg hne]
      have hreserved := h.inv.reserve f
      have hgeometry := s'.pmm.sameGeometry_reserve f
      rcases vmmMapPage_cases hreserved root (stackPage base page) (frameAddress f) vmmWritable with
        ⟨s₁, hmap, hinv, hsame⟩ | ⟨s₁, hmap, hinv, hmaps⟩
      · simp only [hmap]
        refine haccrues.of_eq ?_
          ((hgeometry.trans hsame.geometry).trans (sameGeometry_pmmFreeFrame _ _))
        funext q
        exact congrArg (fun T : Tables => (T q).map Table.owner) hsame.tables
      · simp only [hmap]
        have hframe := (hmaps.evolves hreserved hinv).frame
        have hreserve : s'.Enlarges root { s' with pmm := s'.pmm.reserve f } :=
          .of_eq (Paging.ownerOf_congr rfl)
        have hstep : s.Accrues root s₁ := by
          refine ⟨haccrues.geometry.trans (hgeometry.trans hframe.geometry),
            haccrues.enlarges.trans (hreserve.trans (hmaps.enlarges hreserved)),
            fun q hnone hsome => ?_⟩
          -- either an earlier turn made the table, or this one did
          by_cases hq : s'.tables q = none
          · have hunused := hframe.unused hinv.booked hq hsome
            change (s'.pmm.reserve f).used (frameOf q) = false at hunused
            rw [Pmm.used_reserve, Bool.or_eq_false_iff] at hunused
            rw [Bool.eq_false_iff]
            intro hused
            rw [(h.used _).mpr (.inl (.inl hused))] at hunused
            cases hunused.2
          · exact haccrues.unused hnone hq
        refine ih hrest (h.push hwin (hpages page mem_cons_self) hinstalled hfree hmaps hinv)
          (fun page' hmem => ?_) hstep _
        rw [Function.update_of_ne (by rintro rfl; exact hother hmem)]
        exact hpages page' (mem_cons_of_mem _ hmem)

/-- The rollback registers nothing. -/
theorem rollbackStackPages_records (root base : Word) (pages : List (Fin 4)) (s : Paging) :
    (pages.foldl (rollbackStackPage root base) s).records = s.records ∧
      s.pmm.SameGeometry (pages.foldl (rollbackStackPage root base) s).pmm := by
  induction pages generalizing s with
  | nil => exact ⟨rfl, .refl _⟩
  | cons page pages ih =>
      have hstep : (rollbackStackPage root base s page).records = s.records ∧
          s.pmm.SameGeometry (rollbackStackPage root base s page).pmm := by
        rw [rollbackStackPage]
        rcases vmmUnmapPage_page s root (stackPage base page) with
          ⟨heq, -⟩ | ⟨_, pt, t, -, -, -, -, -, -, -, -, -, heq⟩
        · rw [heq]
          exact ⟨rfl, .refl _⟩
        · rw [heq]
          exact ⟨rfl, sameGeometry_pmmFreeFrame _ _⟩
      obtain ⟨hrecords, hgeometry⟩ := ih (rollbackStackPage root base s page)
      rw [foldl_cons]
      exact ⟨hrecords.trans hstep.1, hstep.2.trans hgeometry⟩

/-- A store neither takes a frame nor registers one. -/
theorem stores_registry (words : List (Fin 512 × Word)) (a : Word) (s : Paging) :
    (words.foldl (fun s w => s.write a w.1 w.2) s).pmm = s.pmm ∧
      (words.foldl (fun s w => s.write a w.1 w.2) s).records = s.records := by
  induction words generalizing s with
  | nil => exact ⟨rfl, rfl⟩
  | cons word words ih => exact ih (s.write a word.1 word.2)

/-- **Staged pages are the new loans.** -/
theorem Staged.mem_loans (h : Staged root base s frames s') (hs : s.Inv ∅)
    (haccrues : s.Accrues root s') (f : ℕ) :
    f ∈ s'.loans ↔ f ∈ s.loans ∨ ∃ page a, frames page = some a ∧ frameOf a = f := by
  rw [h.inv.booked.mem_loans, hs.booked.mem_loans, h.used, haccrues.geometry.totalFrames]
  constructor
  · rintro ⟨hrange, (hused | ⟨q, -, hsome, hf⟩) | hstaged, hno⟩
    · exact .inl ⟨hrange, hused, fun q hq => hno q (h.keeps hq)⟩
    · exact absurd hf (hno q hsome)
    · exact .inr hstaged
  · rintro (⟨hrange, hused, hno⟩ | ⟨page, a, hpage, rfl⟩)
    · refine ⟨hrange, .inl (.inl hused), fun q hq hf => ?_⟩
      by_cases hold : s.tables q = none
      · have hunused := haccrues.unused hold hq
        rw [hf, hused] at hunused
        cases hunused
      · exact hno q hold hf
    · obtain ⟨hforeign, hrel, -⟩ := h.owned hpage
      refine ⟨haccrues.geometry.totalFrames ▸ hrel.inRange, .inr ⟨page, a, hpage, rfl⟩,
        fun q hq hf => ?_⟩
      rw [frameOf_inj (h.inv.booked.releases hq).aligned hforeign.1 hf] at hq
      exact hq hforeign.2.1

end Mapping

section Create

variable (layout : TaskLayout) (taskAddress : Word) {v : Vmm} (task : Task)
  {id addressSpace entry : Word} (argument : Word)

/-- **The loans of `task_create`**: a call that succeeds takes out one for each page of the
stack, on a frame that was not in use, and a call that fails on a clear slot takes out
none. -/
theorem taskCreate_loans (h : v.paging.Inv ∅)
    (haccepts : taskCreateAccepts id addressSpace entry = true)
    (hclear : SlotClear addressSpace (taskStackVirtualFor layout id) v.paging)
    {code : ℤ} {task' : Task} {v' : Vmm}
    (heq : taskCreate layout taskAddress v task id addressSpace entry argument = (code,
      task', v')) :
    v.paging.Accrues addressSpace v'.paging ∧
      (code ≠ 0 → v'.paging.loans = v.paging.loans) ∧
      (code = 0 → (∀ page, v'.paging.pmm.Releases (task'.kernelStackPages page) ∧
          v.paging.pmm.used (frameOf (task'.kernelStackPages page)) = false) ∧
        ∀ f, f ∈ v'.paging.loans ↔
          f ∈ v.paging.loans ∨ ∃ page, frameOf (task'.kernelStackPages page) = f) := by
  rcases taskCreate_outcome layout taskAddress v task argument id addressSpace entry with
    ⟨-, _, hrefused, -⟩ | ⟨-, hspace, complete, s, recorded, hloop, hresult⟩
  · rw [hrefused, Prod.mk.injEq, Prod.mk.injEq] at heq
    obtain ⟨rfl, -, rfl⟩ := heq
    exact ⟨.refl _ _, fun _ => rfl, fun hcode => absurd hcode (by decide)⟩
  obtain ⟨hwin, frames, hstaged, hframe⟩ := taskCreate_stages layout h haccepts hloop
  have haccrues := mapStackPages_accrues hwin (nodup_finRange 4) (.refl addressSpace _ h)
    (fun _ _ => rfl) (.refl addressSpace v.paging) fun _ => 0
  rw [hloop] at haccrues
  rcases hresult with ⟨rfl, hfailed⟩ | ⟨rfl, hcreated⟩
  · rw [hfailed, Prod.mk.injEq, Prod.mk.injEq] at heq
    obtain ⟨rfl, -, rfl⟩ := heq
    obtain ⟨frames', hstaged', hnone⟩ := hstaged.rollback hwin hclear stackPages
    obtain ⟨hrecords, hgeometry⟩ := rollbackStackPages_records addressSpace
      (taskStackVirtualFor layout id) stackPages s
    have haccrues' := haccrues.of_eq (Paging.ownerOf_congr hrecords) hgeometry
    refine ⟨haccrues', fun _ => ?_, fun hcode => absurd hcode (by decide)⟩
    ext f
    refine (hstaged'.mem_loans h haccrues' f).trans (or_iff_left ?_)
    rintro ⟨page, a, hpage, -⟩
    rw [hnone page (.inl (mem_finRange page))] at hpage
    cases hpage
  · generalize firstRunStores layout taskAddress (taskStackVirtualFor layout id + 0x4000) =
      words at hcreated
    rw [hcreated, Prod.mk.injEq, Prod.mk.injEq] at heq
    obtain ⟨rfl, rfl, rfl⟩ := heq
    obtain ⟨hpmm, hrecords⟩ := stores_registry words (recorded 3) s
    refine ⟨haccrues.of_eq (Paging.ownerOf_congr hrecords) (hpmm ▸ .refl _),
      fun hcode => absurd rfl hcode, fun _ => ⟨fun page => ?_, fun f => ?_⟩⟩
    · obtain ⟨-, hrel, hunused⟩ := hstaged.owned (hframe rfl page)
      exact ⟨hpmm ▸ hrel, hunused⟩
    · dsimp only
      rw [Paging.loans_congr hpmm hrecords, hstaged.mem_loans h haccrues]
      refine or_congr_right ⟨?_, fun ⟨page, hf⟩ => ⟨page, _, hframe rfl page, hf⟩⟩
      rintro ⟨page, a, hpage, hf⟩
      rw [hframe rfl page, Option.some.injEq] at hpage
      subst hpage
      exact ⟨page, hf⟩

end Create

/-! ## Unmapping a stack -/

/-- **The loans of `task_unmap_stack`.**  The loop gives back the frames of its pages, and
changes nothing else in the books. -/
theorem unmapStackPages_frees {root base : Word} (hnodup : pages.Nodup) {s s' : Paging}
    {frames frames' : Fin 4 → Word} (hreleases : ∀ page ∈ pages, s.pmm.Releases (frames page))
    (hinj : ∀ page ∈ pages, ∀ page' ∈ pages, frames page = frames page' → page = page')
    (hloop : unmapStackPages root base pages s frames = (true, s', frames')) :
    s'.records = s.records ∧ s.pmm.SameGeometry s'.pmm ∧
      ∀ f, s'.pmm.used f = true ↔ s.pmm.used f = true ∧ ∀ page ∈ pages,
      frameOf (frames page) ≠ f := by
  induction pages generalizing s frames with
  | nil =>
      rw [unmapStackPages, Prod.mk.injEq, Prod.mk.injEq] at hloop
      obtain ⟨-, rfl, -⟩ := hloop
      exact ⟨rfl, .refl _, fun f => by simp⟩
  | cons page pages ih =>
      obtain ⟨hfresh, hrest⟩ := nodup_cons.mp hnodup
      have hrel := hreleases page mem_cons_self
      rw [unmapStackPages] at hloop
      rcases vmmUnmapPage_page s root (stackPage base page) with
        ⟨heq, -⟩ | ⟨_, pt, t, -, -, -, -, -, -, -, -, -, heq⟩
      · rw [heq] at hloop
        cases hloop
      rw [heq] at hloop
      dsimp only at hloop
      by_cases hframe : entryAddress (t.entries (ptIndex (stackPage base page))) = frames page
      swap
      · rw [if_pos hframe] at hloop
        cases hloop
      rw [if_neg (not_not.mpr hframe), hframe] at hloop
      have hne : ∀ page' ∈ pages, page' ≠ page := by
        rintro page' hmem rfl
        exact hfresh hmem
      have hkept : ∀ page' ∈ pages, Function.update frames page 0 page' = frames page' :=
        fun page' hmem => Function.update_of_ne (hne page' hmem) _ _
      have hpmm : pmmFreeFrame s.pmm (frames page) = s.pmm.release (frameOf (frames page)) :=
        pmmFreeFrame_of_releases hrel
      have hdistinct : ∀ page' ∈ pages, frameOf (frames page') ≠ frameOf (frames page) := by
        intro page' hmem hf
        refine hne page' hmem (hinj page' (mem_cons_of_mem page hmem) page mem_cons_self ?_)
        exact frameOf_inj (hreleases page' (mem_cons_of_mem page hmem)).aligned hrel.aligned hf
      obtain ⟨hrecords, hgeometry, hused⟩ := ih hrest (fun page' hmem => by
          rw [hkept page' hmem]
          refine (hreleases page' (mem_cons_of_mem page hmem)).of_sameGeometry
            (sameGeometry_pmmFreeFrame s.pmm (frames page)) ?_
          rw [used_pmmFreeFrame_of_ne _ _ (hdistinct page' hmem)]
          exact (hreleases page' (mem_cons_of_mem page hmem)).used)
        (fun page₁ h₁ page₂ h₂ heq' => by
          rw [hkept page₁ h₁, hkept page₂ h₂] at heq'
          exact hinj page₁ (mem_cons_of_mem page h₁) page₂ (mem_cons_of_mem page h₂) heq')
        hloop
      refine ⟨hrecords, (sameGeometry_pmmFreeFrame _ _).trans hgeometry, fun f => ?_⟩
      rw [hused, forall_mem_cons]
      change (pmmFreeFrame s.pmm (frames page)).used f = true ∧ _ ↔ _
      rw [hpmm, Pmm.used_release, Bool.and_eq_true, Bool.not_eq_true', decide_eq_false_iff_not,
        and_comm (a := ¬ f = _), and_assoc, ne_comm]
      refine and_congr_right fun _ => and_congr_right fun _ => forall₂_congr fun page' hmem => ?_
      rw [hkept page' hmem]

end Batos
