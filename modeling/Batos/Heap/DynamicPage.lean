import Batos.Vmm.PageMap

/-!
# The dynamic heap page

`heap_dynamic_page_acquire` takes a frame from the PMM, maps it at `__heap_start` in the kernel
address space, and records that the heap owns it.  `heap_dynamic_page_release` undoes all three.
In between the mapping is open to everybody who may call `vmm.c`.

An acquisition that fails has changed nothing: either it fails before it has allocated
anything, or `vmm_map_page` fails, which leaves nothing behind, and the frame goes back.  The
undo behind the verification of the mapping is never reached (`acquire_cases`).

A release that fails is a different matter.  It removes the mapping first and looks at the
frame afterwards.  If somebody has mapped another frame at the address in the meantime, the
release returns -1, and that mapping is gone.  This is the only case in which a failure changes
anything (`dynamicPage_atomic_iff`).
-/

namespace Batos

/-- The record of the page the heap owns. -/
structure DynamicPage where
  physical : Word := 0
  virtual : Word := 0
  mapped : Bool := false
  deriving DecidableEq, Repr

/-- `heap_dynamic_page_acquire`; `heapStart` is `HEAP_DYNAMIC_PAGE_VIRTUAL`. -/
def heapDynamicPageAcquire (heapStart : Word) (v : Vmm) (page : DynamicPage) :
    Word × Vmm × DynamicPage :=
  if page.mapped then (0, v, page)
  else if (vmmTranslate v.paging (vmmGetPml4 v) heapStart).isSome then (0, v, page)
  else
    match pmmAllocFrame v.paging.pmm with
    | (physicalAddress, pmm) =>
    if physicalAddress = 0 then (0, { v with paging := { v.paging with pmm := pmm } }, page)
    else
      match vmmMapPage { v.paging with pmm := pmm } (vmmGetPml4 v) heapStart physicalAddress
        vmmWritable with
      | (code, s) =>
      if code ≠ 0 then
        (0, { v with paging := { s with pmm := pmmFreeFrame s.pmm physicalAddress } }, page)
      else if vmmTranslate s (vmmGetPml4 v) heapStart ≠ some physicalAddress then
        match vmmUnmapPage s (vmmGetPml4 v) heapStart with
        | (none, s) => (0, { v with paging := s }, page)
        | (some unmapped, s) =>
            if unmapped = physicalAddress then
              (0, { v with paging := { s with pmm := pmmFreeFrame s.pmm unmapped } }, page)
            else (0, { v with paging := s }, page)
      else (heapStart, { v with paging := s }, ⟨physicalAddress, heapStart, true⟩)

/-- `heap_dynamic_page_release`. -/
def heapDynamicPageRelease (v : Vmm) (page : DynamicPage) (virtualAddress : Word) :
    ℤ × Vmm × DynamicPage :=
  if page.mapped = false then (-1, v, page)
  else if virtualAddress ≠ page.virtual then (-1, v, page)
  else
    match vmmUnmapPage v.paging (vmmGetPml4 v) virtualAddress with
    | (none, s) => (-1, { v with paging := s }, page)
    | (some unmapped, s) =>
        if unmapped ≠ page.physical then (-1, { v with paging := s }, page)
        else (0, { v with paging := { s with pmm := pmmFreeFrame s.pmm unmapped } }, {})

/-! ## What the calls can do -/

section Outcomes

variable {v : Vmm} {page : DynamicPage} {s s' : Paging}

/-- Giving the frame back that has just been taken restores the bitmap, whatever has come and
gone in between. -/
theorem Paging.Same.giveBack (h : s.Inv ∅) {f : ℕ} (hinstalled : s.pmm.frameBitmap ≠ 0)
    (hfree : s.pmm.Free f) (hsame : ({ s with pmm := s.pmm.reserve f } : Paging).Same s') :
    s.Same { s' with pmm := pmmFreeFrame s'.pmm (frameAddress f) } := by
  have hframe := frameOf_frameAddress (h.sound.lt_of_free hfree)
  have hreleases := h.sound.releases_reserve hinstalled hfree
  have hgeometry := (s.pmm.sameGeometry_reserve f).trans hsame.geometry
  have hreleases' : s'.pmm.Releases (frameAddress f) :=
    { installed := by
        rw [hsame.geometry.frameBitmap]
        exact hreleases.installed
      nonzero := hreleases.nonzero
      aligned := hreleases.aligned
      inRange := by
        rw [hsame.geometry.totalFrames]
        exact hreleases.inRange
      used := (hsame.used _).trans hreleases.used
      notBitmap := fun hbitmap => hreleases.notBitmap
        ((hsame.geometry.isBitmapFrame_iff _).mp hbitmap) }
  refine ⟨hsame.tables, fun g => ?_, hgeometry.trans (sameGeometry_pmmFreeFrame _ _),
    fun q hq => ?_⟩
  · dsimp only
    rw [pmmFreeFrame_of_releases hreleases', hframe, Pmm.used_release, hsame.used, Pmm.used_reserve]
    by_cases hg : g = f
    · rw [hg, hfree.2.2]
      simp
    · simp [hg]
  · refine hsame.memory q fun hfree' => hq ⟨hfree'.1, hfree'.2.1, ?_⟩
    have hclear := hfree'.2.2
    rw [Pmm.used_reserve, Bool.or_eq_false_iff] at hclear
    exact hclear.2

/-- The new page translates to its frame. -/
theorem Paging.Maps.translate_self {pml4 va pa flags : Word} (h : s.Inv ∅)
    (hmaps : s.Maps pml4 va pa flags s') (hpa : pa.toNat < 2 ^ 52) :
    vmmTranslate s' pml4 va = some pa := by
  have hleaf := (hmaps.lookup h).2 va
  rw [if_pos (.refl va)] at hleaf
  have hframe : entryAddress pa = pa :=
    frameAligned_of_lt ((and_pageMask_eq_zero_iff pa).mp hmaps.pa_aligned) hpa
  rw [vmmTranslate_of_page hleaf, entryAddress_leafEntry, hmaps.va_aligned, hframe]
  exact congrArg some BitVec.or_zero

/-- **The outcomes of `heap_dynamic_page_acquire`.** -/
theorem acquire_cases (h : v.paging.Inv ∅) (heapStart : Word) (page : DynamicPage) :
    (∃ s', heapDynamicPageAcquire heapStart v page = (0, { v with paging := s' }, page) ∧ s'.Inv ∅ ∧
        v.paging.Same s') ∨
      ∃ f s', v.paging.pmm.frameBitmap ≠ 0 ∧ v.paging.pmm.Free f ∧
        pmmAllocFrame v.paging.pmm = (frameAddress f, v.paging.pmm.reserve f) ∧
        vmmMapPage { v.paging with pmm := v.paging.pmm.reserve f } (vmmGetPml4 v) heapStart
          (frameAddress f) vmmWritable = (0, s') ∧
        heapStart &&& 0xFFF = 0 ∧
        heapDynamicPageAcquire heapStart v page =
          (heapStart, { v with paging := s' }, ⟨frameAddress f, heapStart, true⟩) := by
  have hstay : ∃ s', ((0 : Word), v, page) = (0, { v with paging := s' }, page) ∧ s'.Inv ∅ ∧
      v.paging.Same s' := ⟨v.paging, rfl, h, .refl _⟩
  unfold heapDynamicPageAcquire
  by_cases hmapped : page.mapped = true
  · rw [if_pos hmapped]
    exact .inl hstay
  rw [if_neg hmapped]
  by_cases htaken : (vmmTranslate v.paging (vmmGetPml4 v) heapStart).isSome = true
  · rw [if_pos htaken]
    exact .inl hstay
  rw [if_neg htaken]
  rcases pmmAllocFrame_cases v.paging.pmm with ⟨heq, -⟩ | ⟨f, hfree, -, hinstalled, heq⟩
  · rw [heq]
    exact .inl hstay
  have hlt := h.sound.lt_of_free hfree
  have hreserved := h.reserve f
  rw [heq]
  dsimp only
  rw [if_neg (frameAddress_ne_zero hlt hfree.1)]
  rcases vmmMapPage_cases hreserved (vmmGetPml4 v) heapStart (frameAddress f) vmmWritable with
    ⟨s', hmap, hinv, hsame⟩ | ⟨s', hmap, hinv, hmaps⟩
  · rw [hmap]
    refine .inl ⟨_, if_pos (show (-1 : ℤ) ≠ 0 by decide), ?_, hsame.giveBack h hinstalled hfree⟩
    exact hinv.free (hsame.foreign (h.booked.foreign_reserve hinstalled hfree)).1
  · have hframe : (frameAddress f).toNat < 2 ^ 52 := by
      have htotal := h.sound.total_le
      have hrange := hfree.2.1
      rw [frameAddress_toNat hlt]
      omega
    have htranslate := hmaps.translate_self hreserved hframe
    rw [hmap]
    dsimp only
    rw [if_neg (by decide), if_neg (not_not.mpr htranslate)]
    exact .inr ⟨f, s', hinstalled, hfree, rfl, hmap, hmaps.va_aligned, rfl⟩

/-- Somebody has mapped another frame at the address of the page. -/
def DynamicPage.Strays (v : Vmm) (page : DynamicPage) (va : Word) : Prop :=
  page.mapped = true ∧ va = page.virtual ∧
    ∃ entry, v.paging.tables.lookup (vmmGetPml4 v) va = some (0, entry) ∧
    entryAddress entry ≠ page.physical

/-- **The outcomes of `heap_dynamic_page_release`.** -/
theorem release_cases (h : v.paging.Inv ∅)
    (haligned : page.mapped = true → page.virtual &&& 0xFFF = 0)
    (va : Word) :
    (heapDynamicPageRelease v page va = (-1, v, page) ∧ ¬ page.Strays v va) ∨
      (page.Strays v va ∧ heapDynamicPageRelease v page va =
          (-1, { v with paging := (vmmUnmapPage v.paging (vmmGetPml4 v) va).2 }, page) ∧
        vmmTranslate v.paging (vmmGetPml4 v) va ≠ none ∧
        vmmTranslate (vmmUnmapPage v.paging (vmmGetPml4 v) va).2 (vmmGetPml4 v) va = none) ∨
      (page.mapped = true ∧ ¬ page.Strays v va ∧ heapDynamicPageRelease v page va =
        (0, { v with paging := { (vmmUnmapPage v.paging (vmmGetPml4 v) va).2 with
          pmm := pmmFreeFrame (vmmUnmapPage v.paging (vmmGetPml4 v) va).2.pmm page.physical } },
            {})) := by
  unfold heapDynamicPageRelease
  cases hmapped : page.mapped with
  | false =>
      refine .inl ⟨rfl, fun hstrays => ?_⟩
      rw [hstrays.1] at hmapped
      cases hmapped
  | true =>
  rw [if_neg (by decide)]
  by_cases hva : va = page.virtual
  swap
  · exact .inl ⟨if_pos hva, fun hstrays => hva hstrays.2.1⟩
  rw [if_neg (not_not.mpr hva)]
  rcases vmmUnmapPage_cases h.wf (vmmGetPml4 v) va with
    ⟨heq, hnone⟩ | ⟨_, pt, t, -, -, -, -, -, -, -, hleaf, heq, hcleared⟩
  · rw [heq]
    refine .inl ⟨rfl, fun hstrays => ?_⟩
    obtain ⟨-, -, entry, hentry, -⟩ := hstrays
    exact hnone (hva ▸ haligned hmapped) entry hentry
  · rw [heq]
    dsimp only
    by_cases hframe : entryAddress (t.entries (ptIndex va)) = page.physical
    · refine .inr (.inr ⟨rfl, fun hstrays => ?_, ?_⟩)
      · obtain ⟨-, -, entry, hentry, hne⟩ := hstrays
        rw [hleaf, Option.some.injEq, Prod.mk.injEq] at hentry
        exact hne (hentry.2 ▸ hframe)
      · rw [if_neg (not_not.mpr hframe), hframe]
    · refine .inr (.inl ⟨⟨hmapped, hva, _, hleaf, hframe⟩, if_pos hframe, ?_, ?_⟩)
      · rw [vmmTranslate_of_page hleaf]
        exact Option.some_ne_none _
      · have hgone := hcleared va
        rw [if_pos (.refl va)] at hgone
        rw [← Option.not_isSome_iff_eq_none, vmmTranslate_isSome, hgone]
        exact Bool.false_ne_true

end Outcomes

/-! ## Runs -/

/-- The memory subsystem and the record of the heap.  The frame of the page counts as held. -/
structure PageRun where
  mm : Mm
  page : DynamicPage := {}

/-- The calls. -/
inductive PageOp
  | acquire
  | release (virtualAddress : Word)
  | memory (op : MmOp)

namespace PageRun

/-- One call. -/
def step (image : KernelImage) (heapStart : Word) (y : PageRun) : PageOp → PageRun
  | .acquire =>
      match heapDynamicPageAcquire heapStart y.mm.vmm y.page with
      | (address, v, page) =>
          ⟨⟨v, if address = 0 then y.mm.held else page.physical :: y.mm.held⟩, page⟩
  | .release va =>
      match heapDynamicPageRelease y.mm.vmm y.page va with
      | (code, v, page) =>
          ⟨⟨v, if code = 0 then y.mm.held.filter (· ≠ y.page.physical) else y.mm.held⟩, page⟩
  | .memory op => { y with mm := y.mm.step image op }

/-- Callers keep to their own frames, and leave the frame of the page to the heap. -/
def Enabled (y : PageRun) : PageOp → Prop
  | .memory op => y.mm.Enabled op ∧ (y.page.mapped = true → op ≠ .freeFrame y.page.physical)
  | _ => True

instance (y : PageRun) : ∀ op, Decidable (y.Enabled op)
  | .acquire | .release _ => isTrue trivial
  | .memory op =>
      inferInstanceAs (Decidable (y.mm.Enabled op ∧
        (y.page.mapped = true → op ≠ .freeFrame y.page.physical)))

/-- The state behind `vmm_init`. -/
def boot (boot : MmBoot) : PageRun := ⟨boot.start, {}⟩

end PageRun

/-- The heap page among all other calls. -/
def pageSystem (image : KernelImage) (heapStart : Word) : TransitionSystem PageRun PageOp where
  enabled := PageRun.Enabled
  step := PageRun.step image heapStart

instance (image : KernelImage) (heapStart : Word) (y : PageRun) (op : PageOp) :
    Decidable ((pageSystem image heapStart).enabled y op) :=
  inferInstanceAs (Decidable (y.Enabled op))

/-- The page tables are in order, and the frame of the page is the heap's. -/
structure PageRun.Inv (y : PageRun) : Prop where
  mm : y.mm.Inv
  owned : y.page.mapped = true → y.page.physical ∈ y.mm.held
  aligned : y.page.mapped = true → y.page.virtual &&& 0xFFF = 0

namespace PageRun.Inv

variable {y : PageRun} (h : y.Inv)

include h

theorem acquire (image : KernelImage) {heapStart : Word} (hstart : heapStart ≠ 0) :
    (y.step image heapStart .acquire).Inv := by
  rcases acquire_cases h.mm.paging heapStart y.page with
    ⟨s', heq, hinv, hsame⟩ | ⟨f, s', -, hfree, halloc, hmap, haligned, heq⟩
  · rw [PageRun.step, heq]
    exact ⟨h.mm.of_evolves ⟨.of_same hinv hsame, rfl, rfl, rfl⟩, h.owned, h.aligned⟩
  · rw [PageRun.step, heq]
    dsimp only
    rw [if_neg hstart]
    -- the call takes a frame and maps it, as any client may
    have hallocated := h.mm.allocFrame image
    have hne : frameAddress f ≠ 0 :=
      frameAddress_ne_zero (h.mm.paging.sound.lt_of_free hfree) hfree.1
    have hstep : y.mm.step image .allocFrame =
        { y.mm.setPaging { y.mm.vmm.paging with pmm := y.mm.vmm.paging.pmm.reserve f } with
          held := frameAddress f :: y.mm.held } := by
      simp only [Mm.step, halloc, if_neg hne]
    rw [hstep] at hallocated
    have hmapped := hallocated.of_paging_evolves
      (vmmMapPage_evolves hallocated.paging (vmmGetPml4 y.mm.vmm) heapStart
      (frameAddress f) vmmWritable)
    have hpaging : (vmmMapPage { y.mm.vmm.paging with pmm := y.mm.vmm.paging.pmm.reserve f }
        (vmmGetPml4 y.mm.vmm) heapStart (frameAddress f) vmmWritable).2 = s' :=
        congrArg Prod.snd hmap
    refine ⟨?_, fun _ => List.mem_cons_self, fun _ => haligned⟩
    rw [← hpaging]
    exact hmapped

theorem release (image : KernelImage) (heapStart va : Word) :
    (y.step image heapStart (.release va)).Inv := by
  have hunmapped := h.mm.of_paging_evolves
    (vmmUnmapPage_evolves h.mm.paging (vmmGetPml4 y.mm.vmm) va)
  rcases release_cases h.mm.paging h.aligned va with
    ⟨heq, -⟩ | ⟨-, heq, -⟩ | ⟨hmapped, -, heq⟩
  · rw [PageRun.step, heq]
    exact h
  · rw [PageRun.step, heq]
    exact ⟨hunmapped, h.owned, h.aligned⟩
  · rw [PageRun.step, heq]
    have hfreed := hunmapped.freeFrame image (h.owned hmapped)
    exact ⟨hfreed, fun hnone => absurd hnone Bool.false_ne_true, fun hnone =>
      absurd hnone Bool.false_ne_true⟩

theorem memory (image : KernelImage) (heapStart : Word) {op : MmOp} (hop : y.Enabled (.memory op)) :
    (y.step image heapStart (.memory op)).Inv := by
  refine ⟨h.mm.step image hop.1, fun hmapped => ?_, h.aligned⟩
  have howned := h.owned hmapped
  change y.page.physical ∈ (y.mm.step image op).held
  cases op with
  | allocFrame =>
      simp only [Mm.step]
      split_ifs
      · exact howned
      · exact List.mem_cons_of_mem _ howned
  | freeFrame a =>
      refine List.mem_filter.mpr ⟨howned, ?_⟩
      have hne := hop.2 hmapped
      exact decide_eq_true fun heq => hne (heq ▸ rfl)
  | createAddressSpace => exact howned
  | createKernelAddressSpace => exact howned
  | mapPage pml4 va pa flags => exact howned
  | unmapPage pml4 va => exact howned
  | activate pml4 => exact howned
  | prepare => exact howned
  | destroy pml4 => exact howned
  | store a index value => exact howned

end PageRun.Inv

theorem pageRun_inv {image : KernelImage} {boot : MmBoot} {heapStart : Word}
    (hstart : heapStart ≠ 0) {y : PageRun}
    (hy : (pageSystem image heapStart).Reachable (.boot boot) y) : y.Inv := by
  refine hy.induction PageRun.Inv (fun y op h hop => ?_) ?_
  · cases op with
    | acquire => exact h.acquire image hstart
    | release va => exact h.release image heapStart va
    | memory op => exact h.memory image heapStart hop
  · exact ⟨boot.inv_start, fun hnone => absurd hnone Bool.false_ne_true,
      fun hnone => absurd hnone Bool.false_ne_true⟩

/-! ## Failure -/

/-- No translation has changed, in any address space, nor the bitmap, nor the record. -/
structure DynamicPage.Untouched (v : Vmm) (page : DynamicPage) (result : Vmm × DynamicPage) :
    Prop where
  translations : ∀ root va, vmmTranslate result.1.paging root va = vmmTranslate v.paging root va
  bitmap : result.1.paging.pmm.bitmapBytes = v.paging.pmm.bitmapBytes
  page : result.2 = page

/-- **Failure and the dynamic page.**  In every state of every run: an acquisition that fails
changes nothing, and a release that fails changes nothing if and only if nobody has mapped
another frame at the address of the page. -/
theorem dynamicPage_atomic_iff (image : KernelImage) (boot : MmBoot) {heapStart : Word}
    (hstart : heapStart ≠ 0) {y : PageRun}
    (hy : (pageSystem image heapStart).Reachable (.boot boot) y) :
    ((heapDynamicPageAcquire heapStart y.mm.vmm y.page).1 = 0 →
        y.page.Untouched y.mm.vmm (heapDynamicPageAcquire heapStart y.mm.vmm y.page).2) ∧
      ∀ va, ((heapDynamicPageRelease y.mm.vmm y.page va).1 = -1 →
          y.page.Untouched y.mm.vmm (heapDynamicPageRelease y.mm.vmm y.page va).2) ↔
        ¬ y.page.Strays y.mm.vmm va := by
  have h := pageRun_inv hstart hy
  constructor
  · intro hfail
    rcases acquire_cases h.mm.paging heapStart y.page with
      ⟨s', heq, -, hsame⟩ | ⟨f, s', -, -, -, -, -, heq⟩
    · rw [heq]
      refine ⟨fun root va => vmmTranslate_congr ?_, bitmap_ext hsame.used, rfl⟩
      rw [hsame.tables]
    · rw [heq] at hfail
      exact absurd hfail hstart
  · intro va
    rcases release_cases h.mm.paging h.aligned va with
      ⟨heq, hnot⟩ | ⟨hstrays, heq, hbefore, hafter⟩ | ⟨-, hnot, heq⟩
    · rw [heq]
      exact iff_of_true (fun _ => ⟨fun _ _ => rfl, rfl, rfl⟩) hnot
    · rw [heq]
      refine iff_of_false (fun hkept => hbefore ?_) (not_not.mpr hstrays)
      rw [← (hkept rfl).translations]
      exact hafter
    · rw [heq]
      exact iff_of_true (fun hfail => absurd hfail (show (0 : ℤ) ≠ -1 by decide)) hnot

/-- The page right behind the image of the small kernel. -/
def demoHeapStart : Word := 0xFFFFFFFF80001000

/-- The heap owns a page. -/
def demoAcquired : PageRun := (pageSystem demoImage demoHeapStart).run (.boot demoBoot) [.acquire]

/-- A release with a wrong address, and a second acquisition. -/
theorem dynamicPage_atomic_demo :
    demoAcquired.page.Untouched demoAcquired.mm.vmm
        (heapDynamicPageAcquire demoHeapStart demoAcquired.mm.vmm demoAcquired.page).2 ∧
      demoAcquired.page.Untouched demoAcquired.mm.vmm
        (heapDynamicPageRelease demoAcquired.mm.vmm demoAcquired.page 0x400000).2 := by
  have hreach : (pageSystem demoImage demoHeapStart).Reachable (.boot demoBoot) demoAcquired :=
    ⟨[.acquire], by decide +kernel, rfl⟩
  obtain ⟨hacquire, hrelease⟩ := dynamicPage_atomic_iff demoImage demoBoot (by decide) hreach
  have hpage : demoAcquired.page.mapped = true ∧ demoAcquired.page.virtual = demoHeapStart := by
    decide +kernel
  refine ⟨hacquire ?_, (hrelease 0x400000).mpr (fun hstrays => ?_) ?_⟩
  · rw [heapDynamicPageAcquire, if_pos hpage.1]
  · exact absurd (hstrays.2.1.trans hpage.2) (by decide)
  · decide +kernel

/-- Somebody unmaps the page and maps another frame in its place. -/
def demoReplacedOps : List PageOp :=
  [.acquire, .memory (.unmapPage 0x2000 demoHeapStart),
    .memory (.mapPage 0x2000 demoHeapStart 0x8000 vmmWritable)]

def demoReplaced : PageRun :=
  (pageSystem demoImage demoHeapStart).run (.boot demoBoot) demoReplacedOps

/-- The release fails, and takes the new mapping away. -/
theorem release_unmaps_other :
    (pageSystem demoImage demoHeapStart).Reachable (.boot demoBoot) demoReplaced ∧
      (heapDynamicPageRelease demoReplaced.mm.vmm demoReplaced.page demoHeapStart).1 = -1 ∧
      vmmTranslate demoReplaced.mm.vmm.paging 0x2000 demoHeapStart = some 0x8000 ∧
      vmmTranslate (heapDynamicPageRelease demoReplaced.mm.vmm demoReplaced.page
        demoHeapStart).2.1.paging 0x2000 demoHeapStart = none := by
  refine ⟨⟨demoReplacedOps, ?_, rfl⟩, ?_, ?_, ?_⟩
  · decide +kernel
  · decide +kernel
  · decide +kernel
  · decide +kernel

end Batos
