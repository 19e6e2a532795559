import Batos.Pmm.Run

/-!
# The free set, and when there is one

`pmm_init` passes over the memory map three times, each time with its own rounding, and puts
the bitmap into the memory it describes.  Two questions about it remain.

*Is the free set right?*  A frame is clear exactly if a usable entry contains its whole page
and neither the bitmap nor frame `0` claims it.  Since `pmm_alloc_frame` looks for a clear
bit from the bottom, calling it again and again enumerates the free set: every frame once,
in increasing order, and then nothing (`pmmInit_free_set`).

*Is there always one?*  `find_bitmap_location` returns the start of the first entry with
room, and 0 if there is none; but the first entry with room may start at 0.  Then `pmm_init`
gives up although it has found what it was looking for, even if there is room elsewhere
(`pmmInit_installs_iff`).
-/

namespace Batos

open List

/-! ## Allocation to the end -/

namespace Pmm

variable (s : Pmm)

/-- The frames `pmm_alloc_frame` may return, in the order in which it looks at them. -/
def freeList : List ℕ := (List.range' 1 (s.totalFrames - 1)).filter fun f => !s.used f

theorem findFreeFrame_eq_head : findFreeFrame s = s.freeList.head? :=
  List.head?_filter.symm

theorem pairwise_freeList : s.freeList.Pairwise (· < ·) :=
  List.Pairwise.filter _ (pairwise_lt_range' _)

theorem nodup_freeList : s.freeList.Nodup := s.pairwise_freeList.imp ne_of_lt

theorem mem_freeList {f : ℕ} : f ∈ s.freeList ↔ s.Free f := by
  rw [freeList, mem_filter, mem_range'_1, Bool.not_eq_true', Free, ← and_assoc]
  exact and_congr_left fun _ => by omega

/-- A frame that is reserved leaves the list. -/
theorem freeList_reserve {f : ℕ} {rest : List ℕ} (h : s.freeList = f :: rest) :
    (s.reserve f).freeList = rest := by
  have hnodup := s.nodup_freeList
  rw [h, nodup_cons] at hnodup
  have hfilter : (s.reserve f).freeList = s.freeList.filter fun g => !decide (g = f) := by
    rw [freeList, freeList, filter_filter]
    refine filter_congr fun g _ => ?_
    rw [used_reserve, Bool.not_or]
  rw [hfilter, h, filter_cons_of_neg (by simp), filter_eq_self]
  intro g hg
  rw [Bool.not_eq_true', decide_eq_false_iff_not]
  rintro rfl
  exact hnodup.1 hg

end Pmm

/-- The answers to `n` calls of `pmm_alloc_frame` in a row. -/
def pmmAllocFrames (s : Pmm) : ℕ → List Word
  | 0 => []
  | n + 1 => (pmmAllocFrame s).1 :: pmmAllocFrames (pmmAllocFrame s).2 n

/-- **Repeated allocation enumerates the free frames**, and then answers 0. -/
theorem pmmAllocFrames_eq (n : ℕ) : ∀ {s : Pmm}, s.frameBitmap ≠ 0 →
    pmmAllocFrames s n =
      (s.freeList.map frameAddress).take n ++ List.replicate (n - s.freeList.length) 0 := by
  induction n with
  | zero =>
      intro s _
      simp [pmmAllocFrames]
  | succ n ih =>
      intro s hinstalled
      rw [pmmAllocFrames, pmmAllocFrame, if_neg hinstalled, s.findFreeFrame_eq_head]
      cases hlist : s.freeList with
      | nil =>
          have hrest := ih hinstalled
          rw [hlist] at hrest
          simp only [List.head?_nil, hrest, map_nil, take_nil, nil_append, length_nil,
            Nat.sub_zero]
          rw [replicate_succ]
      | cons f rest =>
          have hrest := @ih (s.reserve f) hinstalled
          rw [s.freeList_reserve hlist] at hrest
          simp only [List.head?_cons, hrest, map_cons, take_succ_cons, length_cons,
            Nat.add_sub_add_right, cons_append]

/-! ## The free set of `pmm_init` -/

/-- The frames that `pmm_init` is to make available, in increasing order: those with their
whole page in usable memory, without the bitmap and frame `0`. -/
def availableFrames (entries : List LimineMemmapEntry) (s : Pmm) : List ℕ :=
  (List.range s.totalFrames).filter fun f =>
  decide (InUsable entries f ∧ ¬ s.IsBitmapFrame f ∧ f ≠ 0)

theorem sortedLT_availableFrames (entries : List LimineMemmapEntry) (s : Pmm) :
    (availableFrames entries s).Pairwise (· < ·) :=
  List.pairwise_lt_range.filter _

section Init

variable {boot : LimineResponse} {entries : List LimineMemmapEntry}

theorem freeList_pmmInit (hmap : boot.memmap = some entries) (hbound : EndsBelow52 entries)
    (hinstalled : (pmmInit boot {}).frameBitmap ≠ 0) :
    (pmmInit boot {}).freeList = availableFrames entries (pmmInit boot {}) := by
  obtain ⟨htotal, hused, -⟩ := pmmInit_spec hmap hbound hinstalled
  have hsorted := sortedLT_availableFrames entries (pmmInit boot {})
  refine List.Perm.eq_of_pairwise (fun a b _ _ hab hba => absurd hab hba.asymm)
    (Pmm.pairwise_freeList _) hsorted ?_
  rw [perm_ext_iff_of_nodup (Pmm.nodup_freeList _) (hsorted.imp ne_of_lt)]
  intro f
  rw [Pmm.mem_freeList, availableFrames, mem_filter, mem_range, decide_eq_true_eq, Pmm.Free]
  constructor
  · rintro ⟨hpos, hlt, hclear⟩
    exact ⟨hlt, (hused f (htotal ▸ hlt)).mp hclear⟩
  · rintro ⟨hlt, havailable⟩
    exact ⟨Nat.pos_of_ne_zero havailable.2.2, hlt, (hused f (htotal ▸ hlt)).mpr havailable⟩

/-- **`pmm_init` computes exactly the free set**, and repeated allocation enumerates it: the
address of every frame of it once, in increasing order, and then 0. -/
theorem pmmInit_free_set (hmap : boot.memmap = some entries) (hbound : EndsBelow52 entries)
    (hinstalled : (pmmInit boot {}).frameBitmap ≠ 0) :
    (∀ f < (pmmInit boot {}).totalFrames, (pmmInit boot {}).used f = false ↔
      InUsable entries f ∧ ¬ (pmmInit boot {}).IsBitmapFrame f ∧ f ≠ 0) ∧
    (availableFrames entries (pmmInit boot {})).Pairwise (· < ·) ∧
    (∀ f ∈ availableFrames entries (pmmInit boot {}), (frameAddress f).toNat = f * 4096) ∧
    ∀ n, pmmAllocFrames (pmmInit boot {}) n =
      ((availableFrames entries (pmmInit boot {})).map frameAddress).take n ++
        List.replicate (n - (availableFrames entries (pmmInit boot {})).length) 0 := by
  obtain ⟨htotal, hused, -⟩ := pmmInit_spec hmap hbound hinstalled
  refine ⟨fun f hf => hused f (htotal ▸ hf), sortedLT_availableFrames entries _, fun f hf => ?_,
    fun n => ?_⟩
  · have hlt := mem_range.mp (mem_filter.mp hf).1
    have hle := totalFramesOf_le hbound
    rw [← htotal] at hle
    exact frameAddress_toNat (by omega)
  · rw [pmmAllocFrames_eq n hinstalled, freeList_pmmInit hmap hbound hinstalled]

theorem pmmInit_free_set_demo :
    pmmAllocFrames (pmmInit demoResponse {}) 5 = [0x2000, 0x3000, 0x4000, 0, 0] ∧
      ∀ n, pmmAllocFrames (pmmInit demoResponse {}) n =
        ((availableFrames demoEntries (pmmInit demoResponse {})).map frameAddress).take n ++
          List.replicate (n - (availableFrames demoEntries (pmmInit demoResponse {})).length) 0 :=
  ⟨by decide +kernel,
    (pmmInit_free_set rfl
    (by decide) (by decide +kernel : (pmmInit demoResponse {}).frameBitmap ≠ 0)).2.2.2⟩

end Init

/-! ## A place for the bitmap -/

/-- The entry is usable and has room for so many bytes, after rounding to pages. -/
def LimineMemmapEntry.HasRoom (size : ℕ) (e : LimineMemmapEntry) : Bool :=
  decide (e.type = limineMemmapUsable) && decide (e.start < e.stop) && decide
  (size ≤ e.stop - e.start)

/-- The number of bytes `pmm_init` looks for. -/
def bitmapAllocationSize (entries : List LimineMemmapEntry) : ℕ :=
  alignUp ((totalFramesOf entries + 7) / 8)

/-- `find_bitmap_location` answers with the start of the first entry with room. -/
theorem findBitmapLocation_eq (size : ℕ) (entries : List LimineMemmapEntry) :
    findBitmapLocation size entries = ((entries.find? (·.HasRoom size)).map (·.start)).getD 0 := by
  induction entries with
  | nil => rfl
  | cons e rest ih =>
      rw [findBitmapLocation, List.find?_cons]
      by_cases hroom : e.HasRoom size = true
      · have hfits := hroom
        simp only [LimineMemmapEntry.HasRoom, Bool.and_eq_true, decide_eq_true_eq] at hfits
        obtain ⟨⟨htype, hlt⟩, hsize⟩ := hfits
        rw [hroom, if_neg (not_not.mpr htype), if_neg (not_le.mpr hlt), if_pos hsize]
        rfl
      · rw [Bool.not_eq_true] at hroom
        rw [hroom, ih]
        dsimp only
        split_ifs with htype hempty hsize
        · rfl
        · rfl
        · simp [LimineMemmapEntry.HasRoom, not_not.mp htype, not_le.mp hempty, hsize] at hroom
        · rfl

/-- The bitmap is installed, in a usable entry. -/
def Pmm.Installed (entries : List LimineMemmapEntry) (s : Pmm) : Prop :=
  s.frameBitmap ≠ 0 ∧ ∃ e ∈ entries, e.type = limineMemmapUsable ∧ e.base ≤ s.bitmapPhysical ∧
    s.bitmapPhysical + alignUp s.bitmapSize ≤ e.base + e.length

/-- The geometry is settled before the bitmap is filled. -/
theorem sameGeometry_installBitmap {entries : List LimineMemmapEntry} (hbound : EndsBelow52 entries)
    (s : Pmm) :
    ({ s with frameBitmap := wrap64 (s.bitmapPhysical + s.hhdmOffset) } : Pmm).SameGeometry
      (installBitmap entries s) := by
  have hreleased := (foldl_releaseUsable entries hbound { s with
    frameBitmap := wrap64 (s.bitmapPhysical + s.hhdmOffset)
    bitmapBytes := fun i => if i < s.bitmapSize then 0xFF#8 else s.bitmapBytes i
    freeFrames := 0 }).1
  obtain ⟨hframe, htotal, hphysical, hsize⟩ := hreleased
  unfold installBitmap
  dsimp only
  split_ifs
  · exact ⟨hframe, htotal, hphysical, hsize⟩
  · exact ⟨hframe, htotal, hphysical, hsize⟩

theorem pmmInit_eq (entries : List LimineMemmapEntry) (offset : ℕ) :
    pmmInit ⟨some entries, some offset⟩ {} =
      if totalFramesOf entries = 0 then
        { hhdmOffset := offset, totalFrames := totalFramesOf entries }
      else if findBitmapLocation (bitmapAllocationSize entries) entries = 0 then
        placedBitmap entries offset
      else installBitmap entries (placedBitmap entries offset) := rfl

/-- **When `pmm_init` succeeds.**  Suppose some usable entry has room for the bitmap.  Then the
bitmap is installed exactly if the first such entry does not start in page 0, and is not
mapped at the address 0. -/
theorem pmmInit_installs_iff {entries : List LimineMemmapEntry} (offset : ℕ)
    (hbound : EndsBelow52 entries)
    (hexists : ∃ e ∈ entries, e.HasRoom (bitmapAllocationSize entries) = true) :
    (pmmInit ⟨some entries, some offset⟩ {}).Installed entries ↔
      ∃ e, entries.find? (·.HasRoom (bitmapAllocationSize entries)) = some e ∧ e.base ≠ 0 ∧
        wrap64 (e.start + offset) ≠ 0 := by
  obtain ⟨e, hfirst⟩ := Option.isSome_iff_exists.mp (List.find?_isSome.mpr hexists)
  have hmem := List.mem_of_find?_eq_some hfirst
  have hroom := List.find?_some hfirst
  simp only [LimineMemmapEntry.HasRoom, Bool.and_eq_true, decide_eq_true_eq] at hroom
  obtain ⟨⟨htype, hlt⟩, hsize⟩ := hroom
  have hstart := e.start_eq (hbound e hmem)
  have hstop := e.stop_eq (hbound e hmem)
  have hlocation : findBitmapLocation (bitmapAllocationSize entries) entries = e.start := by
    rw [findBitmapLocation_eq, hfirst]
    rfl
  have htotal : totalFramesOf entries ≠ 0 := by
    have hlimit := limit_le_highestAddress hmem
    rw [e.limit_eq (hbound e hmem)] at hlimit
    rw [totalFramesOf_eq hbound]
    omega
  have hpage : e.start = 0 ↔ e.base = 0 := by omega
  rw [hfirst, pmmInit_eq, if_neg htotal, hlocation]
  simp only [Option.some.injEq, exists_eq_left']
  by_cases hzero : e.start = 0
  · -- the place that was found is taken for a failure
    rw [if_pos hzero]
    exact iff_of_false (fun hinstalled => hinstalled.1 rfl) fun hok => hok.1 (hpage.mp hzero)
  rw [if_neg hzero, and_iff_right fun hbase => hzero (hpage.mpr hbase)]
  have hgeometry := sameGeometry_installBitmap hbound (placedBitmap entries offset)
  have hphysical : (installBitmap entries (placedBitmap entries offset)).bitmapPhysical = e.start :=
    hgeometry.bitmapPhysical.trans hlocation
  have hframe : (installBitmap entries (placedBitmap entries offset)).frameBitmap =
      wrap64 (e.start + offset) := by
    rw [hgeometry.frameBitmap, ← hlocation]
    rfl
  rw [Pmm.Installed, hframe, hphysical, hgeometry.bitmapSize]
  refine and_iff_left ⟨e, hmem, htype, ?_, ?_⟩
  · omega
  · change e.start + bitmapAllocationSize entries ≤ _
    omega

/-- On the small machine the bitmap finds its place in the first entry. -/
theorem pmmInit_installs_demo :
    (pmmInit ⟨some demoEntries, some 0xffff800000000000⟩ {}).Installed demoEntries :=
  (pmmInit_installs_iff 0xffff800000000000 (by decide) (by decide)).mpr
    ⟨⟨0x1000, 0x4000, 0⟩, by decide, by decide, by decide⟩

/-- **A machine that does not boot.**  The first usable entry starts at 0 and has room for the
bitmap, as has the second one; `pmm_init` gives up. -/
theorem pmmInit_gives_up :
    EndsBelow52 [⟨0, 0x4000, 0⟩, ⟨0x10000, 0x4000, 0⟩] ∧
      (∀ e ∈ [(⟨0, 0x4000, 0⟩ : LimineMemmapEntry), ⟨0x10000, 0x4000, 0⟩],
        e.HasRoom (bitmapAllocationSize [⟨0, 0x4000, 0⟩, ⟨0x10000, 0x4000, 0⟩]) = true) ∧
      (pmmInit ⟨some [⟨0, 0x4000, 0⟩, ⟨0x10000, 0x4000, 0⟩], some 0xffff800000000000⟩
        {}).frameBitmap = 0 := by
  refine ⟨by decide, by decide, by decide +kernel⟩

end Batos
