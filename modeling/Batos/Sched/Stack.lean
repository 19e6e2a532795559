import Batos.Sched.Task
import Batos.Vmm.PageMap

/-!
# Mapping a task's stack

`task_map_stack` maps four pages one after the other and, when one of them cannot be
mapped, unmaps all four.  `Staged` describes the states in between, relative to the
state before the call: some of the pages are mapped to frames taken for them, some
page tables may have been added, and nothing else is different.  The loop moves from
one staged state to the next (`Staged.push`), and so does the rollback as long as it
meets only pages this call has mapped (`Staged.pop`, `Staged.skip`).

The rollback does not know which pages this call has mapped.  Where it meets a page
that was mapped before, that page is gone afterwards (`rollbackStackPages_unmaps`).
-/

namespace Batos

open Function List BitVec

variable {id root base : Word} {page : Fin 4} {f : ℕ} {s : Paging}

/-- The pages of a stack are aligned, and a walk tells them apart. -/
structure StackWindow (base : Word) : Prop where
  aligned : ∀ page, stackPage base page &&& 0xFFF = 0
  distinct : ∀ {page page'}, Tables.SamePath (stackPage base page) (stackPage base page') →
    page = page'

/-- The stack of an accepted id lies in the window, whole. -/
theorem toNat_taskStackVirtualFor (layout : TaskLayout) (hid : id ≠ 0)
    (hmax : id.toNat ≤ taskMaxTasks) :
    (taskStackVirtualFor layout id).toNat =
      layout.stackStart.toNat + 0x1000 + (id.toNat - 1) * 0x5000 := by
  have hpos : 0 < id.toNat := by
    rw [Nat.pos_iff_ne_zero]
    exact fun hzero => hid (eq_of_toNat_eq hzero)
  have hfits := layout.fits
  have hmax' : id.toNat ≤ 256 := hmax
  have hpred : (id - 1).toNat = id.toNat - 1 := by
    have hle : (1 : Word) ≤ id := by
      rw [le_def]
      exact hpos
    rw [toNat_sub_of_le hle]
    rfl
  have hoffset : ((id - 1) * 0x5000).toNat = (id.toNat - 1) * 0x5000 := by
    rw [toNat_mul, hpred]
    exact Nat.mod_eq_of_lt (by change _ * 20480 < _; omega)
  have hbase : (layout.stackStart + 0x1000 + (id - 1) * 0x5000).toNat =
      layout.stackStart.toNat + 0x1000 + (id.toNat - 1) * 0x5000 := by
    rw [toNat_add, toNat_add, hoffset]
    change ((layout.stackStart.toNat + 4096) % 2 ^ 64 + _) % 2 ^ 64 = _
    omega
  have hend : (layout.stackStart + 0x1000 + (id - 1) * 0x5000 + 0x4000).toNat =
      layout.stackStart.toNat + 0x1000 + (id.toNat - 1) * 0x5000 + 0x4000 := by
    rw [toNat_add, hbase]
    change (_ + 16384) % 2 ^ 64 = _
    omega
  have hlimit : (layout.stackStart + 0x500000).toNat = layout.stackStart.toNat + 0x500000 := by
    rw [toNat_add]
    exact Nat.mod_eq_of_lt hfits
  unfold taskStackVirtualFor
  rw [if_neg (by rintro (h | h); exacts [hid h, absurd h (Nat.not_lt.mpr hmax)])]
  dsimp only
  rw [if_neg, hbase]
  simp only [lt_def, hbase, hend, hlimit]
  omega

/-- The slot of an accepted id in numbers. -/
theorem stackSlot (layout : TaskLayout) (hid : id ≠ 0) (hmax : id.toNat ≤ taskMaxTasks) :
    (0 < id.toNat ∧ id.toNat ≤ 256) ∧ (layout.stackStart.toNat % 4096 = 0 ∧
      2 ^ 64 - 2 ^ 31 ≤ layout.stackStart.toNat ∧ layout.stackStart.toNat + 0x500000 < 2 ^ 64) ∧
      (taskStackVirtualFor layout id).toNat =
        layout.stackStart.toNat + 0x1000 + (id.toNat - 1) * 0x5000 :=
  ⟨⟨Nat.pos_of_ne_zero fun hzero => hid (eq_of_toNat_eq hzero), hmax⟩,
    ⟨layout.aligned, layout.high, layout.fits⟩, toNat_taskStackVirtualFor layout hid hmax⟩

theorem toNat_stackPage (base : Word) (hbase : base.toNat + 0x4000 < 2 ^ 64) (page : Fin 4) :
    (stackPage base page).toNat = base.toNat + page.val * 0x1000 := by
  have hpage := page.isLt
  unfold stackPage
  rw [toNat_add, toNat_mul, toNat_ofNat]
  change (base.toNat + page.val % 2 ^ 64 * 4096 % 2 ^ 64) % 2 ^ 64 = _
  omega

theorem stackWindow_taskStackVirtualFor (layout : TaskLayout) (hid : id ≠ 0)
    (hmax : id.toNat ≤ taskMaxTasks) : StackWindow (taskStackVirtualFor layout id) := by
  have hslot := stackSlot layout hid hmax
  have hpage := toNat_stackPage (taskStackVirtualFor layout id) (by omega)
  refine ⟨fun page => ?_, fun {page page'} hpath => ?_⟩
  · rw [and_pageMask_eq_zero_iff, hpage]
    omega
  · have hcanonical : ∀ page, Canonical (stackPage (taskStackVirtualFor layout id) page) := by
      intro page
      refine .inr ?_
      rw [hpage]
      omega
    have hsame := (Tables.samePath_iff (hcanonical page) (hcanonical page')).mp hpath
    rw [hpage, hpage] at hsame
    exact Fin.ext (by omega)

/-! ## Staged states -/

/-- `s'` is `s` with some pages of a stack mapped in `root`, to frames taken for them,
and possibly some new page tables. -/
structure Staged (root base : Word) (s : Paging) (frames : Fin 4 → Option Word) (s' : Paging) :
    Prop where
  inv : s'.Inv ∅
  keeps : ∀ {q}, s.tables q ≠ none → s'.tables q ≠ none
  used : ∀ f, s'.pmm.used f = true ↔
    (s.pmm.used f = true ∨ ∃ q, s.tables q = none ∧ s'.tables q ≠ none ∧ frameOf q = f) ∨
      ∃ page a, frames page = some a ∧ frameOf a = f
  mapped : ∀ {page a}, frames page = some a →
    s.tables.lookup root (stackPage base page) = none ∧
      s'.tables.lookup root (stackPage base page) = some (0, leafEntry a vmmWritable)
  other : ∀ va, (∀ page a, frames page = some a → ¬ Tables.SamePath va (stackPage base page)) →
    s'.tables.lookup root va = s.tables.lookup root va
  owned : ∀ {page a}, frames page = some a →
    s'.Foreign a ∧ s'.pmm.Releases a ∧ s.pmm.used (frameOf a) = false
  inj : ∀ {page page' a}, frames page = some a → frames page' = some a → page = page'

namespace Staged

variable {root base : Word} {s s' s'' : Paging} {frames : Fin 4 → Option Word}

/-- Nothing staged yet. -/
theorem refl (root base : Word) (h : s.Inv ∅) : Staged root base s (fun _ => none) s where
  inv := h
  keeps := id
  used := by
    intro f
    constructor
    · exact fun hf => .inl (.inl hf)
    · rintro ((hf | ⟨q, hnone, hsome, -⟩) | ⟨_, _, hnone, -⟩)
      · exact hf
      · exact absurd hnone hsome
      · cases hnone
  mapped := fun h => by cases h
  other := fun _ _ => rfl
  owned := fun h => by cases h
  inj := fun h => by cases h

theorem of_same (h : Staged root base s frames s') (hsame : s'.Same s'') (hinv : s''.Inv ∅) :
    Staged root base s frames s'' where
  inv := hinv
  keeps := by
    rw [hsame.tables]
    exact h.keeps
  used := by
    intro f
    rw [hsame.used, hsame.tables]
    exact h.used f
  mapped := by
    rw [hsame.tables]
    exact h.mapped
  other := by
    rw [hsame.tables]
    exact h.other
  owned := by
    intro page a hpage
    obtain ⟨hforeign, hrel, hfresh⟩ := h.owned hpage
    refine ⟨(hsame.frame.foreign hforeign).1, hrel.of_sameGeometry hsame.geometry ?_, hfresh⟩
    rw [hsame.used]
    exact hrel.used
  inj := h.inj

/-- A page that is not staged looks as it did before the call. -/
theorem lookup_page (hwin : StackWindow base) (h : Staged root base s frames s')
    (hpage : frames page = none) :
    s'.tables.lookup root (stackPage base page) = s.tables.lookup root (stackPage base page) := by
  refine h.other _ fun page' a hpage' hpath => ?_
  rw [hwin.distinct hpath, hpage'] at hpage
  cases hpage

/-- **One turn of the mapping loop.** -/
theorem push (hwin : StackWindow base) (h : Staged root base s frames s')
    (hpage : frames page = none) (hinstalled : s'.pmm.frameBitmap ≠ 0) (hfree : s'.pmm.Free f)
    (hmaps : ({ s' with pmm := s'.pmm.reserve f } : Paging).Maps root (stackPage base page)
    (frameAddress f) vmmWritable s'')
    (hinv : s''.Inv ∅) :
    Staged root base s (update frames page (some (frameAddress f))) s'' := by
  have hreserved := h.inv.reserve f
  obtain ⟨hbefore, hafter⟩ := hmaps.lookup hreserved
  have hadds := hmaps.adds hreserved
  have hframe := (hmaps.evolves hreserved hinv).frame
  have hrel := h.inv.sound.releases_reserve hinstalled hfree
  have hforeign := h.inv.booked.foreign_reserve hinstalled hfree
  have hf : frameOf (frameAddress f) = f := frameOf_frameAddress (h.inv.sound.lt_of_free hfree)
  have hused : ∀ g, (s'.pmm.reserve f).used g = true ↔ g = f ∨ s'.pmm.used g = true := by
    intro g
    rw [Pmm.used_reserve, Bool.or_eq_true, decide_eq_true_eq]
  have hold : ∀ {page' a}, frames page' = some a → page' ≠ page := by
    rintro page' a hpage' rfl
    rw [hpage] at hpage'
    cases hpage'
  have hsplit : ∀ {page' a}, update frames page (some (frameAddress f)) page' = some a →
      (page' = page ∧ a = frameAddress f) ∨ (page' ≠ page ∧ frames page' = some a) := by
    intro page' a hpage'
    by_cases heq : page' = page
    · rw [heq, update_self] at hpage'
      exact .inl ⟨heq, (Option.some.inj hpage').symm⟩
    · rw [update_of_ne heq] at hpage'
      exact .inr ⟨heq, hpage'⟩
  refine ⟨hinv, fun hq => hadds.keeps (h.keeps hq), fun g => ?_, fun {page' a} hpage' => ?_,
    fun va hno => ?_, fun {page' a} hpage' => ?_, fun {page₁ page₂ a} h₁ h₂ => ?_⟩
  · rw [hadds.used, hused, h.used]
    constructor
    · rintro ((rfl | ((hs | ⟨q, hnone, hsome, hq⟩) | ⟨page', a, hpage', ha⟩)) |
        ⟨q, hnone, hsome, hq⟩)
      · exact .inr ⟨page, frameAddress g, update_self _ _ _, hf⟩
      · exact .inl (.inl hs)
      · exact .inl (.inr ⟨q, hnone, hadds.keeps hsome, hq⟩)
      · refine .inr ⟨page', a, ?_, ha⟩
        rw [update_of_ne (hold hpage')]
        exact hpage'
      · refine .inl (.inr ⟨q, ?_, hsome, hq⟩)
        by_contra hq'
        exact h.keeps hq' hnone
    · rintro ((hs | ⟨q, hnone, hsome, hq⟩) | ⟨page', a, hpage', ha⟩)
      · exact .inl (.inr (.inl (.inl hs)))
      · by_cases hq' : s'.tables q = none
        · exact .inr ⟨q, hq', hsome, hq⟩
        · exact .inl (.inr (.inl (.inr ⟨q, hnone, hq', hq⟩)))
      · rcases hsplit hpage' with ⟨-, rfl⟩ | ⟨-, hpage'⟩
        · exact .inl (.inl (ha.symm.trans hf))
        · exact .inl (.inr (.inr ⟨page', a, hpage', ha⟩))
  · rw [hafter]
    rcases hsplit hpage' with ⟨rfl, rfl⟩ | ⟨hne, hpage'⟩
    · exact ⟨(h.lookup_page hwin hpage).symm.trans hbefore, if_pos (.refl _)⟩
    · rw [if_neg fun hpath => hne (hwin.distinct hpath)]
      exact h.mapped hpage'
  · rw [hafter, if_neg (hno page _ (update_self _ _ _))]
    refine h.other va fun page' a hpage' => hno page' a ?_
    rw [update_of_ne (hold hpage')]
    exact hpage'
  · rcases hsplit hpage' with ⟨-, rfl⟩ | ⟨-, hpage'⟩
    · obtain ⟨hforeign', -, hused'⟩ := hframe.foreign hforeign
      refine ⟨hforeign', hrel.of_sameGeometry hframe.geometry (hused'.trans hrel.used), ?_⟩
      rw [hf, Bool.eq_false_iff]
      intro hs
      have hclear := hfree.2.2
      rw [(h.used f).mpr (.inl (.inl hs))] at hclear
      cases hclear
    · obtain ⟨hforeign₀, hrel₀, hfresh⟩ := h.owned hpage'
      obtain ⟨hforeign', -, hused'⟩ := hframe.foreign (hforeign₀.reserve f)
      refine ⟨hforeign', hrel₀.of_sameGeometry
        ((s'.pmm.sameGeometry_reserve f).trans hframe.geometry) ?_, hfresh⟩
      exact hused'.trans (Pmm.used_reserve_of_used hrel₀.used f)
  · -- a frame taken for an earlier page is in use, and so not the new one
    have hnew : ∀ {page'}, frames page' ≠ some (frameAddress f) := by
      intro page' hpage'
      have hbit := (h.owned hpage').2.1.used
      rw [hf, hfree.2.2] at hbit
      cases hbit
    rcases hsplit h₁ with ⟨rfl, rfl⟩ | ⟨-, h₁⟩
    · rcases hsplit h₂ with ⟨rfl, -⟩ | ⟨-, h₂⟩
      · rfl
      · exact absurd h₂ hnew
    · rcases hsplit h₂ with ⟨-, rfl⟩ | ⟨-, h₂⟩
      · exact absurd h₁ hnew
      · exact h.inj h₁ h₂

/-- A turn that fails gives its frame back. -/
theorem retract (h : Staged root base s frames s') (hinstalled : s'.pmm.frameBitmap ≠ 0)
    (hfree : s'.pmm.Free f) (hsame : ({ s' with pmm := s'.pmm.reserve f } : Paging).Same s'')
    (hinv : s''.Inv ∅) :
    Staged root base s frames { s'' with pmm := pmmFreeFrame s''.pmm (frameAddress f) } := by
  have hf : frameOf (frameAddress f) = f := frameOf_frameAddress (h.inv.sound.lt_of_free hfree)
  have hforeign := (hsame.frame.foreign (h.inv.booked.foreign_reserve hinstalled hfree)).1
  have hrel : s''.pmm.Releases (frameAddress f) := by
    have hrel₀ := h.inv.sound.releases_reserve hinstalled hfree
    refine hrel₀.of_sameGeometry hsame.geometry ?_
    rw [hsame.used]
    exact hrel₀.used
  refine h.of_same ⟨hsame.tables, fun g => ?_, ?_, fun q hq => ?_⟩ (hinv.free hforeign)
  · change (pmmFreeFrame s''.pmm (frameAddress f)).used g = _
    rw [pmmFreeFrame_of_releases hrel, hf, Pmm.used_release, hsame.used]
    change (_ && (s'.pmm.reserve f).used g) = _
    rw [Pmm.used_reserve]
    by_cases hg : g = f
    · rw [hg, hfree.2.2]
      simp
    · simp [hg]
  · exact ((s'.pmm.sameGeometry_reserve f).trans hsame.geometry).trans
      (sameGeometry_pmmFreeFrame _ _)
  · refine hsame.memory q fun hfree' => hq ⟨hfree'.1, hfree'.2.1, ?_⟩
    have hclear := hfree'.2.2
    change (s'.pmm.reserve f).used _ = false at hclear
    rw [Pmm.used_reserve, Bool.or_eq_false_iff] at hclear
    exact hclear.2

/-- **One turn of the rollback, on a page this call has mapped.** -/
theorem pop (hwin : StackWindow base) (h : Staged root base s frames s') {a : Word}
    (hpage : frames page = some a) :
    Staged root base s (update frames page none) (rollbackStackPage root base s' page) := by
  obtain ⟨hforeign, hrel, hfresh⟩ := h.owned hpage
  obtain ⟨hbefore, hleaf⟩ := h.mapped hpage
  rcases vmmUnmapPage_cases h.inv.wf root (stackPage base page) with
    ⟨-, hnone⟩ | ⟨_, pt, t, -, -, -, -, ht, hl, -, hlookup, heq, hcleared⟩
  · exact absurd hleaf (hnone (hwin.aligned page) _)
  rw [hleaf, Option.some.injEq, Prod.mk.injEq] at hlookup
  have haddr : entryAddress (t.entries (ptIndex (stackPage base page))) = a := by
    rw [← hlookup.2, entryAddress_leafEntry]
    exact hrel.frameAligned h.inv.sound
  rw [haddr] at heq
  simp only [rollbackStackPage, heq]
  set s₁ := s'.write pt (ptIndex (stackPage base page)) 0 with hs₁
  have hinv₁ : s₁.Inv ∅ := h.inv.clear_leaf ht hl _
  have hframe : s'.Frame s₁ := frame_write ht _ _
  have htables : ∀ q, s₁.tables q = none ↔ s'.tables q = none := by
    intro q
    rw [tables_eq_none, tables_eq_none]
    exact Iff.rfl
  have hforeign₁ := (hframe.foreign hforeign).1
  have hrest : ∀ {page' b}, update frames page none page' = some b →
      page' ≠ page ∧ frames page' = some b := by
    intro page' b hpage'
    by_cases heq' : page' = page
    · rw [heq', update_self] at hpage'
      cases hpage'
    · rw [update_of_ne heq'] at hpage'
      exact ⟨heq', hpage'⟩
  have hne : ∀ {page' b}, page' ≠ page → frames page' = some b → b ≠ a := by
    rintro page' b hpp hpage' rfl
    exact hpp (h.inj hpage' hpage)
  refine ⟨hinv₁.free hforeign₁, fun hq hnone => h.keeps hq ((htables _).mp hnone), fun g => ?_,
    fun {page' b} hpage' => ?_, fun va hno => ?_, fun {page' b} hpage' => ?_,
    fun h₁ h₂ => h.inj (hrest h₁).2 (hrest h₂).2⟩
  · -- the bit of the frame is clear again; every other bit is as it was
    change (pmmFreeFrame s'.pmm a).used g = true ↔ _
    rw [pmmFreeFrame_of_releases hrel, Pmm.used_release, Bool.and_eq_true, h.used]
    simp only [Bool.not_eq_true', decide_eq_false_iff_not]
    constructor
    · rintro ⟨hg, ((hs | ⟨q, hnone, hsome, hq⟩) | ⟨page', b, hpage', hb⟩)⟩
      · exact .inl (.inl hs)
      · exact .inl (.inr ⟨q, hnone, fun hnone' => hsome ((htables q).mp hnone'), hq⟩)
      · refine .inr ⟨page', b, ?_, hb⟩
        rw [update_of_ne ?_]
        · exact hpage'
        · rintro rfl
          rw [hpage, Option.some.injEq] at hpage'
          exact hg (by rw [hpage', hb])
    · rintro ((hs | ⟨q, hnone, hsome, hq⟩) | ⟨page', b, hpage', hb⟩)
      · refine ⟨?_, .inl (.inl hs)⟩
        rintro rfl
        rw [hfresh] at hs
        cases hs
      · have hsome' : s'.tables q ≠ none := fun hnone' => hsome ((htables q).mpr hnone')
        refine ⟨?_, .inl (.inr ⟨q, hnone, hsome', hq⟩)⟩
        rintro rfl
        obtain ⟨u, hu⟩ := Option.ne_none_iff_exists'.mp hsome'
        rw [frameOf_inj (h.inv.frames hu).aligned hforeign.1 hq, hforeign.2.1] at hu
        cases hu
      · obtain ⟨hpp, hpage'⟩ := hrest hpage'
        refine ⟨?_, .inr ⟨page', b, hpage', hb⟩⟩
        rintro rfl
        exact hne hpp hpage' (frameOf_inj (h.owned hpage').1.1 hforeign.1 hb)
  · obtain ⟨hpp, hpage'⟩ := hrest hpage'
    refine ⟨(h.mapped hpage').1, (hcleared _).trans ?_⟩
    rw [if_neg fun hpath => hpp (hwin.distinct hpath)]
    exact (h.mapped hpage').2
  · refine (hcleared va).trans ?_
    split_ifs with hpath
    · rw [hpath.lookup, hbefore]
    · refine h.other va fun page' b hpage' hpath' => ?_
      by_cases hpp : page' = page
      · exact hpath (hpp ▸ hpath')
      · refine hno page' b ?_ hpath'
        rw [update_of_ne hpp]
        exact hpage'
  · obtain ⟨hpp, hpage'⟩ := hrest hpage'
    obtain ⟨hforeign', hrel', hfresh'⟩ := h.owned hpage'
    have hb := hne hpp hpage'
    refine ⟨(hframe.foreign hforeign').1.free hforeign.1 hb, ?_, hfresh'⟩
    refine hrel'.of_sameGeometry (sameGeometry_pmmFreeFrame s'.pmm a) ?_
    rw [used_pmmFreeFrame_of_address_ne _ hforeign.1 hforeign'.1 hb]
    exact hrel'.used

/-- One turn of the rollback, on a page nobody has mapped. -/
theorem skip (hwin : StackWindow base) (h : Staged root base s frames s')
    (hpage : frames page = none)
    (hclear : ∀ entry, s.tables.lookup root (stackPage base page) ≠ some (0, entry)) :
    rollbackStackPage root base s' page = s' := by
  rcases vmmUnmapPage_cases h.inv.wf root (stackPage base page) with
    ⟨heq, -⟩ | ⟨_, pt, t, -, -, -, -, -, -, -, hlookup, -⟩
  · simp only [rollbackStackPage, heq]
  · rw [h.lookup_page hwin hpage] at hlookup
    exact absurd hlookup (hclear _)

/-- The rollback, when no page was mapped before the call. -/
theorem rollback (hwin : StackWindow base)
    (hclear : ∀ page entry, s.tables.lookup root (stackPage base page) ≠ some (0, entry))
    (pages : List (Fin 4)) (h : Staged root base s frames s') :
    ∃ frames', Staged root base s frames' (pages.foldl (rollbackStackPage root base) s') ∧
      ∀ page, page ∈ pages ∨ frames page = none → frames' page = none := by
  induction pages generalizing frames s' with
  | nil => exact ⟨frames, h, fun page hpage => hpage.resolve_left not_mem_nil⟩
  | cons page pages ih =>
      rw [foldl_cons]
      cases hpage : frames page with
      | none =>
          rw [h.skip hwin hpage (hclear page)]
          obtain ⟨frames', hstaged, hnone⟩ := ih h
          refine ⟨frames', hstaged, fun page' hpage' => hnone page' ?_⟩
          rcases hpage' with hmem | hmem
          · rcases mem_cons.mp hmem with rfl | hmem
            · exact .inr hpage
            · exact .inl hmem
          · exact .inr hmem
      | some a =>
          obtain ⟨frames', hstaged, hnone⟩ := ih (h.pop hwin hpage)
          refine ⟨frames', hstaged, fun page' hpage' => hnone page' ?_⟩
          by_cases heq : page' = page
          · rw [heq]
            exact .inr (update_self _ _ _)
          · rw [update_of_ne heq]
            exact hpage'.imp_left fun hmem => (mem_cons.mp hmem).resolve_left heq

end Staged

/-- **The mapping loop leads to a staged state**, and records the frames of the pages
it has mapped when it runs to its end. -/
theorem mapStackPages_staged (hwin : StackWindow base) {pages : List (Fin 4)} (hnodup : pages.Nodup)
    {frames : Fin 4 → Option Word} {s' : Paging} (h : Staged root base s frames s')
    (hpages : ∀ page ∈ pages, frames page = none) (recorded : Fin 4 → Word) :
    ∃ complete s'' recorded' frames',
      mapStackPages root base pages s' recorded = (complete, s'', recorded') ∧
      Staged root base s frames' s'' ∧
      (complete = true → ∀ page, frames' page = some (recorded' page) ∨
        page ∉ pages ∧ frames' page = frames page ∧ recorded' page = recorded page) := by
  induction pages generalizing frames s' recorded with
  | nil => exact ⟨true, s', recorded, frames, rfl, h, fun _ page => .inr ⟨not_mem_nil, rfl, rfl⟩⟩
  | cons page pages ih =>
      obtain ⟨hfresh, hrest⟩ := nodup_cons.mp hnodup
      have hpage := hpages page mem_cons_self
      rw [mapStackPages]
      rcases pmmAllocFrame_cases s'.pmm with ⟨heq, -⟩ | ⟨f, hfree, -, hinstalled, heq⟩
      · simp only [heq, if_true]
        exact ⟨false, s', _, frames, rfl, h, fun hfalse => by cases hfalse⟩
      · have hne := (h.inv.sound.releases_reserve hinstalled hfree).nonzero
        simp only [heq, if_neg hne]
        rcases vmmMapPage_cases (h.inv.reserve f) root (stackPage base page) (frameAddress f)
            vmmWritable with ⟨s₁, hmap, hinv, hsame⟩ | ⟨s₁, hmap, hinv, hmaps⟩
        · simp only [hmap]
          exact ⟨false, _, _, frames, rfl, h.retract hinstalled hfree hsame hinv,
            fun hfalse => by cases hfalse⟩
        · simp only [hmap]
          have hothers : ∀ page' ∈ pages, page' ≠ page := by
            rintro page' hmem rfl
            exact hfresh hmem
          obtain ⟨complete, s₂, recorded', frames', hloop, hstaged, hrecorded⟩ :=
            ih hrest (h.push hwin hpage hinstalled hfree hmaps hinv) (fun page' hmem => by
              rw [update_of_ne (hothers page' hmem)]
              exact hpages page' (mem_cons_of_mem _ hmem))
              (update recorded page (frameAddress f))
          refine ⟨complete, s₂, recorded', frames', hloop, hstaged, fun hdone page' => ?_⟩
          rcases hrecorded hdone page' with hsome | ⟨hnot, hframes, hrec⟩
          · exact .inl hsome
          · by_cases hpp : page' = page
            · subst hpp
              rw [update_self] at hframes hrec
              exact .inl (by rw [hframes, hrec])
            · rw [update_of_ne hpp] at hframes hrec
              refine .inr ⟨fun hmem => ?_, hframes, hrec⟩
              exact hnot ((mem_cons.mp hmem).resolve_left hpp)

/-! ## The rollback on pages that were mapped before -/

/-- One turn unmaps its page and changes no other translation. -/
theorem rollbackStackPage_lookup (root : Word) (hwin : StackWindow base)
    (hwf : s.tables.forest.Wf vmmLevelPml4 ∅) (page : Fin 4) :
    (rollbackStackPage root base s page).tables.forest.Wf vmmLevelPml4 ∅ ∧
      (∀ entry, (rollbackStackPage root base s page).tables.lookup root (stackPage base page) ≠
        some (0, entry)) ∧
      ∀ va, (rollbackStackPage root base s page).tables.lookup root va = none ∨
        (rollbackStackPage root base s page).tables.lookup root va = s.tables.lookup root va := by
  rcases vmmUnmapPage_cases hwf root (stackPage base page) with
    ⟨heq, hnone⟩ | ⟨_, pt, t, -, -, -, -, ht, hl, -, -, heq, hcleared⟩
  · have hstep : rollbackStackPage root base s page = s := by simp only [rollbackStackPage, heq]
    rw [hstep]
    exact ⟨hwf, hnone (hwin.aligned page), fun va => .inr rfl⟩
  · simp only [rollbackStackPage, heq]
    set s₁ := s.write pt (ptIndex (stackPage base page)) 0 with hs₁
    -- freeing the frame is not seen by a walk
    change s₁.tables.forest.Wf vmmLevelPml4 ∅ ∧
      (∀ entry, s₁.tables.lookup root (stackPage base page) ≠ some (0, entry)) ∧
      ∀ va, s₁.tables.lookup root va = none ∨ s₁.tables.lookup root va = s.tables.lookup root va
    refine ⟨?_, fun entry => ?_, fun va => ?_⟩
    · rw [hs₁, tables_write, Tables.forest_writeEntry_of_child_eq ht]
      · exact hwf
      · rw [hl]
        rfl
    · rw [hcleared, if_pos (.refl _)]
      exact (Option.some_ne_none _).symm
    · rw [hcleared]
      split_ifs
      · exact .inl rfl
      · exact .inr rfl

/-- **The rollback unmaps every page of the slot that is mapped**, no matter who mapped
it. -/
theorem rollbackStackPages_unmaps (hwin : StackWindow base) (pages : List (Fin 4))
    (hwf : s.tables.forest.Wf vmmLevelPml4 ∅) {entry : Word}
    (hpage : page ∈ pages ∨ s.tables.lookup root (stackPage base page) = none)
    (hleaf : s.tables.lookup root (stackPage base page) = none ∨ s.tables.lookup root (stackPage
      base page) = some (0, entry)) :
    (pages.foldl (rollbackStackPage root base) s).tables.lookup root (stackPage base page) =
      none := by
  induction pages generalizing s with
  | nil => exact hpage.resolve_left not_mem_nil
  | cons page' pages ih =>
      rw [foldl_cons]
      obtain ⟨hwf', hcleared, hother⟩ := rollbackStackPage_lookup root hwin hwf page'
      refine ih hwf' ?_ ?_
      · rcases hpage with hmem | hnone
        · rcases mem_cons.mp hmem with rfl | hmem
          · rcases hother (stackPage base page) with hnone | hsame
            · exact .inr hnone
            · rcases hleaf with hnone | hsome
              · exact .inr (hsame.trans hnone)
              · exact absurd (hsame.trans hsome) (hcleared entry)
          · exact .inl hmem
        · rcases hother (stackPage base page) with hnone' | hsame
          · exact .inr hnone'
          · exact .inr (hsame.trans hnone)
      · rcases hother (stackPage base page) with hnone | hsame
        · exact .inl hnone
        · rw [hsame]
          exact hleaf

end Batos
