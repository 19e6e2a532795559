import Batos.Vmm.Mmu

/-!
# What a copy contains

`Vmm/Copy.lean` says which tables a copy is made of.  This module says what is in
them: `clone_page_table` and `copy_page_table_subtree` return a hierarchy on which
the processor takes the same decisions as on the source (`SameTree`).

The copying loops read the source while they allocate.  A source table in a frame
that the PMM may still hand out could be overwritten before it is read, so the
source is assumed to lie outside the free frames (`Paging.Settled`); it need not be
registered, may share tables, and may contain anything.
-/

namespace Batos

variable {index : Fin 512} {c p owner source : Word} {loose : Set Word} {level : ℕ}
  {recur : Paging → Word → Option Word × Paging} {s s' : Paging}

/-- The hierarchy lies in frames the PMM will not hand out. -/
def Paging.Settled (s : Paging) (level : ℕ) (p : Word) : Prop :=
  TreeIn s.memory level p fun q => ¬ s.pmm.Free (frameOf q)

section Settled

variable {s s' : Paging} {level : ℕ} {p q : Word}

theorem Paging.Extends.memory_of_not_free (h : s.Extends s') (hq : ¬ s.pmm.Free (frameOf q)) :
    s'.memory q = s.memory q := by
  cases ht : s.tables q with
  | none => exact h.memory q ht hq
  | some t => rw [memory_of_tables ht, memory_of_tables (h.kept ht)]

theorem Paging.Settled.of_extends (hs : s.Settled level p) (h : s.Extends s') :
    s'.Settled level p :=
  (TreeIn.congr hs fun _ hq => h.memory_of_not_free hq).mono
    fun _ hq hfree => hq (h.free_of_free hfree)

theorem Paging.Settled.child (hs : s.Settled (level + 1) p)
    (hc : entryChild (level + 1) (s.memory p index) = some c) : s.Settled level c :=
  TreeIn.child hs hc

/-- A registered hierarchy is settled. -/
theorem Paging.Inv.settled {t : Table} (h : s.Inv loose) (ht : s.tables p = some t)
    (hl : t.level = level) : s.Settled level p := by
  refine (h.treeIn_desc ht hl).mono fun q hdesc hfree => ?_
  obtain ⟨l, -, hinfo⟩ := h.wf.info_of_desc (Tables.forest_info ht) hdesc
  obtain ⟨u, hu, -⟩ := Tables.exists_of_forest_info hinfo
  rw [h.tables_of_free hfree] at hu
  cases hu

end Settled

/-- `vmm_init` leaves alone what lies outside the free frames. -/
theorem MmBoot.foreign_start (boot : MmBoot) {q : Word} (haligned : q.toNat % 4096 = 0)
    (hq : ¬ boot.pmmRun.pmm.Free (frameOf q)) :
    boot.start.vmm.paging.Foreign q ∧ boot.start.vmm.paging.memory q = boot.memory q := by
  obtain ⟨root, s', spaces, hvmm, hinv, hext, -⟩ := boot.start_vmm
  rw [hvmm]
  obtain ⟨hforeign, hmem, -⟩ := (hext.frame hinv.aligned).foreign
    (q := q) ⟨haligned, Vmm.tables_beforeInit boot.pmmRun boot.memory boot.cr3 q, hq⟩
  exact ⟨hforeign, hmem⟩

/-! ## The copying loop -/

/-- What a recursive call is expected to return: a copy of its source, in which no
table is at address zero. -/
def CopyContents (level : ℕ) (recur : Paging → Word → Option Word × Paging) : Prop :=
  ∀ (s : Paging) (source : Word) (loose : Set Word) (c : Word) (s' : Paging), s.Inv loose →
    s.Settled level source → recur s source = (some c, s') →
    SameTree s.memory s'.memory level source c ∧ TreeIn s.memory level source (· ≠ 0)

theorem SameEntry.congr_left {m m' n : Word → Fin 512 → Word} {p' : Word} {S : Word → Prop}
    (h : SameEntry m m' level p p' index) (hp : TreeIn m level p S) (hn : ∀ q, S q → n q = m q) :
    SameEntry n m' level p p' index := by
  unfold SameEntry
  rw [hn p hp.root]
  refine ⟨h.1, fun c hc => ?_⟩
  obtain ⟨l, rfl⟩ := Nat.exists_eq_succ_of_ne_zero (entryChild_eq_some.mp hc).1
  exact (h.2 c hc).congr (hp.child hc) (treeIn_true _ _ _) hn fun _ _ => rfl

/-- The effect of the copying loop over these indices of the table `d`: they hold a
copy of the source's entries, and all else that was in use is as it was. -/
structure Paging.Copies (s : Paging) (level : ℕ) (source d : Word) (indices : List (Fin 512))
    (s' : Paging) : Prop where
  beside : ∀ q, q ≠ d → ¬ s.pmm.Free (frameOf q) → s'.memory q = s.memory q
  others : ∀ i, i ∉ indices → s'.memory d i = s.memory d i
  entries : ∀ i ∈ indices, SameEntry s.memory s'.memory level source d i
  nonzero : ∀ i ∈ indices, ∀ c, entryChild level (s.memory source i) = some c →
    TreeIn s.memory (level - 1) c (· ≠ 0)

section Loop

variable {s₀ s s₂ s' : Paging} {d source owner : Word} {level : ℕ} {loose : Set Word} {t : Table}
  {index : Fin 512} {indices : List (Fin 512)}

/-- One turn of the loop, and the rest of it. -/
theorem Paging.Copies.cons (h : s₂.Copies level source d indices s')
    (hfree : ∀ f, s₂.pmm.Free f → s.pmm.Free f)
    (hbeside : ∀ q, q ≠ d → ¬ s.pmm.Free (frameOf q) → s₂.memory q = s.memory q)
    (hothers : ∀ i, i ≠ index → s₂.memory d i = s.memory d i)
    (htree : TreeIn s.memory level source fun q => q ≠ d ∧ ¬ s.pmm.Free (frameOf q))
    (hthis : SameEntry s.memory s'.memory level source d index)
    (hnonzero : ∀ c, entryChild level (s.memory source index) = some c →
      TreeIn s.memory (level - 1) c (· ≠ 0)) :
    s.Copies level source d (index :: indices) s' where
  beside := by
    intro q hqd hq
    rw [h.beside q hqd fun hq₂ => hq (hfree _ hq₂), hbeside q hqd hq]
  others := by
    intro i hi
    rw [List.mem_cons, not_or] at hi
    rw [h.others i hi.2, hothers i hi.1]
  entries := by
    intro i hi
    rcases List.mem_cons.mp hi with rfl | hi
    · exact hthis
    · exact (h.entries i hi).congr_left (htree.congr fun q hq => hbeside q hq.1 hq.2)
        fun q hq => (hbeside q hq.1 hq.2).symm
  nonzero := by
    intro i hi c hc
    rcases List.mem_cons.mp hi with rfl | hi
    · exact hnonzero c hc
    · obtain ⟨l, rfl⟩ := Nat.exists_eq_succ_of_ne_zero (entryChild_eq_some.mp hc).1
      have hroot := htree.root
      have hc₂ : entryChild (l + 1) (s₂.memory source i) = some c := by
        rw [hbeside source hroot.1 hroot.2]
        exact hc
      intro path q hq
      refine h.nonzero i hi c hc₂ path q ?_
      rw [← hq]
      exact (htree.child hc).tableAt_eq (fun r hr => hbeside r hr.1 hr.2) path

/-- The tables of a copied child are settled, and the table it is linked into is not
among them. -/
theorem Filling.child_avoids {u : Table} {l : ℕ} (h : Filling s₀ d level owner loose s t)
    (hinv : s'.Inv (insert c (insert d loose))) (hcnew : s.tables c = none)
    (hctab : s'.tables c = some u) (hul : u.level = l) :
    TreeIn s'.memory l c fun q => q ≠ d ∧ ¬ s'.pmm.Free (frameOf q) := by
  intro path q hq
  refine ⟨?_, hinv.settled hctab hul path q hq⟩
  rintro rfl
  have hmem : q ∈ insert c (insert q loose) := Set.mem_insert_of_mem _ (Set.mem_insert _ _)
  obtain rfl := hinv.wf.eq_of_desc_loose hmem (hinv.treeIn_desc hctab hul path q hq)
  rw [h.table] at hcnew
  cases hcnew

theorem Filling.not_free (h : Filling s₀ d level owner loose s t) : ¬ s.pmm.Free (frameOf d) := by
  intro hfree
  have htable := h.table
  rw [h.inv.tables_of_free hfree] at htable
  cases htable

theorem memory_write_of_index_ne {i : Fin 512} (hne : i ≠ index) (s : Paging) (p entry : Word) :
    (s.write p index entry).memory p i = s.memory p i := by
  simp [Paging.write, hne]

/-- **The copying loop copies**, when it completes. -/
theorem copyEntries_contents (source : Word) (hrecur : ∀ l, level = l + 1 → CopySpec l owner recur)
    (hcontents : ∀ l, level = l + 1 → CopyContents l recur) (hlevel : level ≤ vmmLevelPml4)
    (hnew : s₀.tables d = none) (hnodup : indices.Nodup) (h : Filling s₀ d level owner loose s t)
    (hempty : ∀ i ∈ indices, t.entries i = 0)
    (hsource : TreeIn s.memory level source fun q => q ≠ d ∧ ¬ s.pmm.Free (frameOf q))
    (hrun : copyEntries level recur source d indices s = (true, s')) :
    s.Copies level source d indices s' := by
  induction indices generalizing s t with
  | nil =>
      obtain rfl : s = s' := congrArg Prod.snd hrun
      exact ⟨fun _ _ _ => rfl, fun _ _ => rfl, fun _ hi => absurd hi List.not_mem_nil,
        fun _ hi => absurd hi List.not_mem_nil⟩
  | cons index indices ih =>
      obtain ⟨hindex, hnodup⟩ := List.nodup_cons.mp hnodup
      have hold : entryChild t.level (t.entries index) = none := by
        rw [hempty index (List.mem_cons_self ..)]
        exact entryChild_zero _
      have hrest : ∀ entry i, i ∈ indices → Function.update t.entries index entry i = 0 := by
        intro entry i hi
        rw [Function.update_of_ne (show i ≠ index from fun heq => hindex (heq ▸ hi))]
        exact hempty i (List.mem_cons_of_mem _ hi)
      rw [copyEntries] at hrun
      by_cases hpresent : isPresent (s.memory source index) = false
      · -- an absent entry leaves the zero that is there
        rw [if_pos hpresent] at hrun
        have hcopies := ih hnodup h (fun i hi => hempty i (List.mem_cons_of_mem _ hi)) hsource hrun
        have hchild : ∀ c, entryChild level (s.memory source index) ≠ some c := by
          intro c hc
          rw [entryChild_of_not_present hpresent] at hc
          cases hc
        refine hcopies.cons (fun _ hf => hf) (fun _ _ _ => rfl) (fun _ _ => rfl) hsource
          ⟨?_, fun c hc => absurd hc (hchild c)⟩ fun c hc => absurd hc (hchild c)
        rw [hcopies.others index hindex, memory_of_tables h.table,
          hempty index (List.mem_cons_self ..), decision_of_not_present hpresent]
        exact decision_of_not_present isPresent_zero
      rw [if_neg hpresent] at hrun
      have hpresent' : isPresent (s.memory source index) = true := by simpa using hpresent
      by_cases hleaf : level = vmmLevelPt ∨ isHuge (s.memory source index) = true
      · rw [if_pos hleaf] at hrun
        have hchild : entryChild level (s.memory source index) = none := by
          rcases hleaf with rfl | hhuge
          · rfl
          · exact entryChild_of_huge hhuge
        set s₂ := s.write d index (s.memory source index)
        have hbeside : ∀ q, q ≠ d → ¬ s.pmm.Free (frameOf q) → s₂.memory q = s.memory q :=
          fun q hqd _ => memory_write_of_ne hqd _ _
        have hinv : s₂.Inv (insert d loose) :=
          inv_write_leaf h.inv h.table (fun hnot => absurd hnot hpresent) hold (by
            rw [h.table_level]
            exact hchild)
        have hfill := h.write hnew hinv
        have hcopies := ih hnodup hfill (hrest _)
          (hsource.congr fun q hq => hbeside q hq.1 hq.2) hrun
        have hnochild : ∀ c, entryChild level (s.memory source index) ≠ some c := by
          intro c hc
          rw [hchild] at hc
          cases hc
        refine hcopies.cons (fun _ hf => hf) hbeside
          (fun i hi => memory_write_of_index_ne hi s d _) hsource
          ⟨?_, fun c hc => absurd hc (hnochild c)⟩ fun c hc => absurd hc (hnochild c)
        rw [hcopies.others index hindex, memory_write_self]
      rw [if_neg hleaf] at hrun
      rw [not_or] at hleaf
      obtain ⟨l, hl⟩ := Nat.exists_eq_succ_of_ne_zero hleaf.1
      have hhuge : isHuge (s.memory source index) = false := by simpa using hleaf.2
      have hchild : entryChild level (s.memory source index) =
          some (entryAddress (s.memory source index)) :=
        entryChild_eq_some.mpr ⟨hleaf.1, hpresent', hhuge, rfl⟩
      rcases hrecur l hl s (entryAddress (s.memory source index)) _ h.inv with
        ⟨s₁, heq, -, -⟩ | ⟨c, s₁, u, heq, hinv, hext, hcnew, hctab, hul, huo, hlow⟩
      · rw [heq] at hrun
        cases hrun
      rw [heq] at hrun
      dsimp only at hrun
      set s₂ := s₁.write d index (copiedEntry c (s.memory source index))
      have haligned : FrameAligned c := (hinv.frames hctab).frameAligned hinv.sound
      have hfill := h.link hnew hl hpresent' hhuge hold hinv hext hcnew hctab hul
        (by rw [huo, if_neg (by omega)]) hlow
      have hfree : ∀ f, s₂.pmm.Free f → s.pmm.Free f := fun _ hf => hext.free_of_free hf
      have hbeside : ∀ q, q ≠ d → ¬ s.pmm.Free (frameOf q) → s₂.memory q = s.memory q := by
        intro q hqd hq
        rw [memory_write_of_ne hqd]
        exact hext.memory_of_not_free hq
      have hcopies := ih hnodup hfill (hrest _)
        ((hsource.congr fun q hq => hbeside q hq.1 hq.2).mono
          fun q hq => ⟨hq.1, fun hf => hq.2 (hfree _ hf)⟩) hrun
      have hstored : s'.memory d index = copiedEntry c (s.memory source index) := by
        rw [hcopies.others index hindex, memory_write_self]
      subst hl
      have hsettled : s.Settled l (entryAddress (s.memory source index)) :=
        (hsource.child hchild).mono fun _ hq => hq.2
      obtain ⟨hsame, hnonzero⟩ := hcontents l rfl s _ _ c s₁ h.inv hsettled heq
      refine hcopies.cons hfree hbeside (fun i hi => ?_) hsource ⟨?_, ?_⟩ fun c' hc' => ?_
      · rw [memory_write_of_index_ne hi, hext.memory_of_not_free h.not_free]
      · have hchild' : entryChild (l + 1) (copiedEntry c (s.memory source index)) = some c :=
          entryChild_eq_some.mpr ⟨hleaf.1, by rw [isPresent_copiedEntry haligned]; exact hpresent',
            by rw [isHuge_copiedEntry haligned]; exact hhuge, entryAddress_copiedEntry haligned _⟩
        rw [hstored, decision_of_child hchild', decision_of_child hchild,
          copiedEntry_and_flags haligned]
      · intro c' hc'
        obtain rfl := Option.some.inj (hchild.symm.trans hc')
        rw [hstored, entryAddress_copiedEntry haligned]
        -- the copy of the child is complete, and the rest of the loop leaves it alone
        refine hsame.congr hsettled (h.child_avoids hinv hcnew hctab hul) (fun _ _ => rfl)
          fun q hq => ?_
        rw [hcopies.beside q hq.1 hq.2, memory_write_of_ne hq.1]
      · obtain rfl := Option.some.inj (hchild.symm.trans hc')
        exact hnonzero

end Loop

/-! ## The two functions -/

/-- A loop over all entries of a new table. -/
theorem finishCopy_contents {s₀ : Paging} {d : Word}
    (hrecur : ∀ l, level = l + 1 → CopySpec l owner recur)
    (hcontents : ∀ l, level = l + 1 → CopyContents l recur) (hlevel : level ≤ vmmLevelPml4)
    (hnew : s₀.tables d = none) (hfreed : s₀.pmm.Free (frameOf d))
    (h : Filling s₀ d level owner loose s ⟨level, owner, fun _ => 0⟩)
    (hsource : s₀.Settled level source) (hzero : source ≠ 0)
    (hrun : finishCopy level d (copyEntries level recur source d tableIndices s) = (some c, s')) :
    SameTree s₀.memory s'.memory level source c ∧ TreeIn s₀.memory level source (· ≠ 0) := by
  cases hloop : copyEntries level recur source d tableIndices s with
  | mk complete s₁ =>
      rw [hloop] at hrun
      cases complete with
      | false => cases hrun
      | true =>
          obtain ⟨rfl, rfl⟩ : d = c ∧ s₁ = s' := by
            have hpair : (some d, s₁) = (some c, s') := hrun
            simpa using hpair
          have hmem : ∀ q, ¬ s₀.pmm.Free (frameOf q) → s.memory q = s₀.memory q :=
            fun q hq => h.extends_.memory_of_not_free hq
          have hsettled := TreeIn.congr hsource hmem
          have hsource' : TreeIn s.memory level source
              fun q => q ≠ d ∧ ¬ s.pmm.Free (frameOf q) := by
            refine hsettled.mono fun q hq => ⟨?_, fun hf => hq (h.extends_.free_of_free hf)⟩
            rintro rfl
            exact hq hfreed
          have hcopies := copyEntries_contents source hrecur hcontents hlevel hnew
            nodup_tableIndices h (fun _ _ => rfl) hsource' hloop
          constructor
          · rw [sameTree_iff]
            intro index
            exact (hcopies.entries index (mem_tableIndices index)).congr_left hsettled
              fun q hq => (hmem q hq).symm
          · have hnonzero : TreeIn s.memory level source (· ≠ 0) := by
              refine treeIn_iff.mpr ⟨hzero, fun index => ?_⟩
              exact hcopies.nonzero index (mem_tableIndices index)
            intro path q hq
            refine hnonzero path q ?_
            rw [TreeIn.tableAt_eq hsource hmem]
            exact hq

/-- One level of a copy. -/
theorem CopyStep.contents {recur : Word → Paging → Word → Option Word × Paging}
    {copy : Paging → Word → Option Word × Paging} (hstep : CopyStep level owner recur copy)
    (hlevel : level ≤ vmmLevelPml4)
    (hrecur : ∀ l d, level = l + 1 → CopySpec l (if level = vmmLevelPml4 then
      d else owner) (recur d) ∧ CopyContents l (recur d)) :
    CopySpec level owner copy ∧ CopyContents level copy := by
  refine ⟨hstep.spec hlevel fun l d hl => (hrecur l d hl).1, ?_⟩
  intro s source loose c s' h hsource hrun
  rcases hstep s source h.booked with
    ⟨s₁, heq, -⟩ | ⟨d, s₁, hzero, halloc, hinstalled, hnodup, hnonzero, heq⟩
  · rw [heq] at hrun
    cases hrun
  · rw [heq] at hrun
    have hinv₁ := halloc.inv h hinstalled hlevel (fun hl => if_pos hl) hnodup hnonzero
    exact finishCopy_contents (fun l hl => (hrecur l d hl).1) (fun l hl => (hrecur l d hl).2) hlevel
      (h.tables_of_free halloc.free) halloc.free (Filling.of_allocates h halloc hinv₁)
      hsource hzero hrun

/-- **`clone_page_table` returns a copy.** -/
theorem clonePageTable_contents (level : ℕ) (hlevel : level ≤ vmmLevelPml4) (owner : Word)
    (hroot : level = vmmLevelPml4 → owner = 0) :
    CopyContents level (clonePageTable level owner) :=
  ((copies_rule (S := fun level owner copy => CopySpec level owner copy ∧ CopyContents level copy)
    CopyStep.contents).1 level hlevel owner hroot).2

/-- **`copy_page_table_subtree` returns a copy.** -/
theorem copyPageTableSubtree_contents (level : ℕ) (hlevel : level ≤ vmmLevelPdpt) (owner : Word) :
    CopyContents level (copyPageTableSubtree level owner) :=
  ((copies_rule (S := fun level owner copy => CopySpec level owner copy ∧ CopyContents level copy)
    CopyStep.contents).2 level hlevel owner).2

/-! ## Cloning -/

/-- The page-table records in use, by frame, level and owner. -/
def Paging.liveRecords (s : Paging) : Set (Word × ℕ × Word) :=
  { x | ∃ r, s.Live r ∧ (r.physicalAddress, r.level, r.ownerPml4) = x }

theorem Paging.Inv.mem_liveRecords (h : s.Inv ∅) :
    (p, level, owner) ∈ s.liveRecords ↔
      ∃ t, s.tables p = some t ∧ t.level = level ∧ t.owner = owner := by
  constructor
  · rintro ⟨r, hr, heq⟩
    obtain ⟨rfl, rfl, rfl⟩ : r.physicalAddress = p ∧ r.level = level ∧ r.ownerPml4 = owner := by
      simpa using heq
    exact ⟨_, h.tables_of_live hr, rfl, rfl⟩
  · rintro ⟨t, ht, rfl, rfl⟩
    obtain ⟨r, hr, rfl, hl, ho⟩ := Paging.Inv.live_of_tables ht
    exact ⟨r, hr, by rw [hl, ho]⟩

theorem Paging.Same.liveRecords (hsame : s.Same s') (h : s.Inv ∅) (h' : s'.Inv ∅) :
    s'.liveRecords = s.liveRecords := by
  ext ⟨p, level, owner⟩
  rw [h.mem_liveRecords, h'.mem_liveRecords, hsame.tables]

/-- What a clone `c` of `source` is: walked alike at every address, made of tables
that were neither live nor the source's, with the source left as it was. -/
structure IsClone (s : Paging) (source c : Word) (s' : Paging) : Prop where
  nonzero : c ≠ 0
  decisions : ∀ va, walkDecisions s'.memory vmmLevelPml4 c va =
    walkDecisions s.memory vmmLevelPml4 source va
  fresh : TreeIn s'.memory vmmLevelPml4 c fun q => findPageTableRecord s q = none ∧
    TreeIn s.memory vmmLevelPml4 source (· ≠ q)
  source : TreeIn s.memory vmmLevelPml4 source fun q => s'.memory q = s.memory q

/-- A clone is a copy of its source, and takes its tables from the free frames. -/
theorem clonePageTable_some (hinv : s.Inv ∅) (hsource : s.Settled vmmLevelPml4 source)
    (hclone : clonePageTable vmmLevelPml4 0 s source = (some c, s')) :
    SameTree s.memory s'.memory vmmLevelPml4 source c ∧
      TreeIn s.memory vmmLevelPml4 source (· ≠ 0) ∧
      TreeIn s'.memory vmmLevelPml4 c
        (fun q => q ≠ 0 ∧ s.tables q = none ∧ s.pmm.Free (frameOf q)) ∧
      ∀ q, ¬ s.pmm.Free (frameOf q) → s'.memory q = s.memory q := by
  obtain ⟨hsame, hnonzero⟩ := clonePageTable_contents vmmLevelPml4 le_rfl 0 (fun _ => rfl) s source
    ∅ c s' hinv hsource hclone
  rcases clonePageTable_spec vmmLevelPml4 le_rfl 0 (fun _ => rfl) s source ∅ hinv with
    ⟨s₁, heq, -, -⟩ | ⟨c', s₁, u, heq, hinv₁, hext, hnew, hu, hul, -, -⟩
  · exact absurd (congrArg Prod.fst (heq.symm.trans hclone)) (by simp)
  · obtain ⟨hc, rfl⟩ : some c' = some c ∧ s₁ = s' := Prod.mk.inj (heq.symm.trans hclone)
    obtain rfl := Option.some.inj hc
    refine ⟨hsame, hnonzero, ?_, fun q hq => hext.memory_of_not_free hq⟩
    refine (hinv₁.treeIn_desc hu hul).mono fun q hdesc => ?_
    have hnone := hext.tables_of_desc hinv hinv₁ (Set.empty_subset _) hnew hdesc
    obtain ⟨l, -, hinfo⟩ := hinv₁.wf.info_of_desc (Tables.forest_info hu) hdesc
    obtain ⟨v, hv, -⟩ := Tables.exists_of_forest_info hinfo
    exact ⟨(hinv₁.frames hv).nonzero, hnone,
      hext.fresh hnone (by rw [hv]; exact Option.some_ne_none v)⟩

/-- **A recursive clone preserves meaning.**  In every reachable state and for every
source hierarchy outside the frames the PMM may hand out, `clone_page_table` returns a
clone, or fails and leaves the bitmap of the PMM and the records in use as they were. -/
theorem clone_preserves_meaning (image : KernelImage) (boot : MmBoot) {ops : List MmOp}
    (hops : (mmSystem image).Admissible boot.start ops) {s : Paging}
    (hs : ((mmSystem image).run boot.start ops).vmm.paging = s) {source : Word}
    (hsource : s.Settled vmmLevelPml4 source) {result : Option Word} {s' : Paging}
    (hclone : clonePageTable vmmLevelPml4 0 s source = (result, s')) :
    (∀ c, result = some c → IsClone s source c s') ∧
      (result = none → (∀ f, s'.pmm.used f = s.pmm.used f) ∧ s'.liveRecords = s.liveRecords) := by
  have hinv : s.Inv ∅ := hs ▸ (Mm.inv_run image boot hops).paging
  constructor
  · rintro c rfl
    obtain ⟨hsame, -, hfresh, hkept⟩ := clonePageTable_some hinv hsource hclone
    refine ⟨hfresh.root.1, hsame.walkDecisions_eq, hfresh.mono fun q hq => ?_, ?_⟩
    · refine ⟨tables_eq_none.mp hq.2.1, TreeIn.mono hsource ?_⟩
      rintro r hr rfl
      exact hr hq.2.2
    · exact TreeIn.mono hsource hkept
  · rintro rfl
    rcases clonePageTable_spec vmmLevelPml4 le_rfl 0 (fun _ => rfl) s source ∅ hinv with
      ⟨s₁, heq, hinv₁, hsame⟩ | ⟨c, s₁, u, heq, -⟩
    · obtain rfl : s₁ = s' := congrArg Prod.snd (heq.symm.trans hclone)
      exact ⟨hsame.used, hsame.liveRecords hinv hinv₁⟩
    · exact absurd (congrArg Prod.fst (heq.symm.trans hclone)) (by simp)

/-- A boot loader's hierarchy in reserved memory: its PML4 at `0x1F000`, a PDPT
outside the PMM's frames, and in it a 1 GiB leaf. -/
def loaderMemory (p : Word) (index : Fin 512) : Word :=
  if p = 0x1F000 ∧ index = 0 then 0x20003
  else if p = 0x20000 ∧ index = 0 then 0x83
  else 0

/-- The machine of `demoBoot`, with that hierarchy. -/
def loaderBoot : MmBoot where
  response := demoBoot.response
  entries := demoBoot.entries
  early := []
  memory := loaderMemory
  cr3 := 0x1F000
  memmap := rfl
  bound := demoBoot.bound
  root_reserved := demoBoot.root_reserved
  root_unowned := demoBoot.root_unowned
  initialised := by decide +kernel

/-- The tables of that hierarchy. -/
theorem treeIn_loaderMemory :
    TreeIn loaderMemory vmmLevelPml4 0x1F000 fun q => q = 0x1F000 ∨ q = 0x20000 := by
  have hroot : ∀ index c, entryChild 3 (loaderMemory 0x1F000 index) = some c → c = 0x20000 := by
    intro index c hc
    by_cases hindex : index = 0
    · subst hindex
      exact (Option.some.inj hc).symm
    · simp [loaderMemory, hindex] at hc
  have hpdpt : ∀ index, entryChild 2 (loaderMemory 0x20000 index) = none := by
    intro index
    by_cases hindex : index = 0
    · subst hindex
      rfl
    · simp [loaderMemory, hindex]
  refine treeIn_iff.mpr ⟨.inl rfl, fun index c hc => ?_⟩
  obtain rfl := hroot index c hc
  refine treeIn_iff.mpr ⟨.inr rfl, fun index c hc => ?_⟩
  exact absurd ((hpdpt index).symm.trans hc) (by simp)

/-- The hierarchy is still there after `vmm_init`, outside what the PMM hands out. -/
theorem treeIn_loaderBoot : TreeIn loaderBoot.start.vmm.paging.memory vmmLevelPml4 0x1F000
    fun q => loaderBoot.start.vmm.paging.Foreign q := by
  have hforeign : ∀ q : Word, q = 0x1F000 ∨ q = 0x20000 →
      loaderBoot.start.vmm.paging.Foreign q ∧
        loaderBoot.start.vmm.paging.memory q = loaderMemory q := by
    rintro q (rfl | rfl)
    · exact loaderBoot.foreign_start (by decide) (by decide +kernel)
    · exact loaderBoot.foreign_start (by decide) (by decide +kernel)
  exact (treeIn_loaderMemory.congr fun q hq => (hforeign q hq).2).mono fun q hq => (hforeign q hq).1

/-- The boot loader's hierarchy is cloned. -/
theorem clone_preserves_meaning_demo :
    IsClone loaderBoot.start.vmm.paging 0x1F000 0x3000
      (clonePageTable vmmLevelPml4 0 loaderBoot.start.vmm.paging 0x1F000).2 := by
  have hresult : (clonePageTable vmmLevelPml4 0 loaderBoot.start.vmm.paging 0x1F000).1 =
      some 0x3000 := by decide +kernel
  exact (@clone_preserves_meaning demoImage loaderBoot [] trivial loaderBoot.start.vmm.paging rfl
    0x1F000 (treeIn_loaderBoot.mono fun _ hq => hq.2.2) _ _ Prod.mk.eta.symm).1 0x3000 hresult

end Batos
