import Batos.Pmm.Model

/-!
# What one PMM call does

Specification lemmas for `pmm_alloc_frame` and `pmm_free_frame`.  Both calls
touch at most one bit, and everything above the PMM — the page tables, the task
stacks, the heap page — only ever sees the set `Pmm.used`.  The lemmas here are
stated in that vocabulary, so no later module unfolds the bitmap.
-/

namespace Batos

open BitVec

variable {f : ℕ} {a : Word} {s : Pmm}

/-! ## Addresses and frames -/

theorem toNat_and_pageMask (a : Word) : (a &&& 0xFFF).toNat = a.toNat % 4096 := by
  rw [toNat_and]
  exact Nat.and_two_pow_sub_one_eq_mod a.toNat 12

theorem and_pageMask_eq_zero_iff (a : Word) : a &&& 0xFFF = 0 ↔ a.toNat % 4096 = 0 := by
  rw [← toNat_and_pageMask, ← toNat_inj]
  rfl

/-- Clearing the low bits rounds down. -/
theorem toNat_and_not_lowMask (k : ℕ) (a : Word) :
    (a &&& ~~~BitVec.ofNat 64 (2 ^ k - 1)).toNat = a.toNat / 2 ^ k * 2 ^ k := by
  have hshift : a &&& ~~~BitVec.ofNat 64 (2 ^ k - 1) = (a >>> k) <<< k := by
    apply eq_of_getLsbD_eq
    intro i hi
    rw [getLsbD_and, getLsbD_not, getLsbD_ofNat, Nat.testBit_two_pow_sub_one,
      getLsbD_shiftLeft, getLsbD_ushiftRight]
    by_cases hlow : i < k
    · simp [hlow]
    · have hindex : k + (i - k) = i := by omega
      simp [hlow, hi, hindex]
  rw [hshift, toNat_shiftLeft, toNat_ushiftRight, Nat.shiftLeft_eq,
    Nat.shiftRight_eq_div_pow]
  exact Nat.mod_eq_of_lt (lt_of_le_of_lt (Nat.div_mul_le_self _ _) a.isLt)

/-- The address of a frame does not wrap. -/
theorem frameAddress_toNat (h : f < 2 ^ 52) : (frameAddress f).toNat = f * 4096 := by
  rw [frameAddress, toNat_ofNat]
  exact Nat.mod_eq_of_lt (by omega)

@[simp] theorem frameOf_frameAddress (h : f < 2 ^ 52) :
    frameOf (frameAddress f) = f := by
  rw [frameOf, frameAddress_toNat h]
  omega

theorem frameAddress_ne_zero (h : f < 2 ^ 52) (hpos : 0 < f) :
    frameAddress f ≠ 0 := by
  intro hzero
  have hval := congrArg BitVec.toNat hzero
  rw [frameAddress_toNat h] at hval
  have : (0 : Word).toNat = 0 := rfl
  omega

theorem frameAddress_aligned (h : f < 2 ^ 52) :
    (frameAddress f).toNat % 4096 = 0 := by
  rw [frameAddress_toNat h]
  omega

/-- A page-aligned address is the address of its frame. -/
theorem frameAddress_frameOf (h : a.toNat % 4096 = 0) :
    frameAddress (frameOf a) = a := by
  apply eq_of_toNat_eq
  have hlt := a.isLt
  rw [frameAddress_toNat (by unfold frameOf; omega), frameOf]
  omega

/-- A frame has one aligned address. -/
theorem frameOf_inj {b : Word} (ha : a.toNat % 4096 = 0) (hb : b.toNat % 4096 = 0)
    (h : frameOf a = frameOf b) : a = b := by
  rw [← frameAddress_frameOf ha, ← frameAddress_frameOf hb, h]

/-! ## The effect on the set of used frames -/

namespace Pmm

variable (s : Pmm)

/-- Reserving a frame sets its bit. -/
@[simp] theorem used_reserve (f g : ℕ) :
    (s.reserve f).used g = (decide (g = f) || s.used g) :=
  bitmapTest_bitmapSet _ _ _

/-- Releasing a frame clears its bit. -/
@[simp] theorem used_release (f g : ℕ) :
    (s.release f).used g = (!decide (g = f) && s.used g) :=
  bitmapTest_bitmapClear _ _ _

/-- The variables `pmm_init` fixes once and for all. -/
structure SameGeometry (s t : Pmm) : Prop where
  frameBitmap : t.frameBitmap = s.frameBitmap
  totalFrames : t.totalFrames = s.totalFrames
  bitmapPhysical : t.bitmapPhysical = s.bitmapPhysical
  bitmapSize : t.bitmapSize = s.bitmapSize

namespace SameGeometry

variable {s t u : Pmm}

@[refl] theorem refl (s : Pmm) : SameGeometry s s := ⟨rfl, rfl, rfl, rfl⟩

theorem trans (h₁ : SameGeometry s t) (h₂ : SameGeometry t u) : SameGeometry s u :=
  ⟨h₂.frameBitmap.trans h₁.frameBitmap, h₂.totalFrames.trans h₁.totalFrames,
    h₂.bitmapPhysical.trans h₁.bitmapPhysical, h₂.bitmapSize.trans h₁.bitmapSize⟩

theorem isBitmapFrame_iff (h : SameGeometry s t) (f : ℕ) :
    t.IsBitmapFrame f ↔ s.IsBitmapFrame f := by
  simp only [IsBitmapFrame, bitmapFirstFrame, bitmapFrameCount, h.bitmapPhysical,
    h.bitmapSize]

end SameGeometry

theorem sameGeometry_reserve (f : ℕ) : SameGeometry s (s.reserve f) := ⟨rfl, rfl, rfl, rfl⟩

theorem sameGeometry_release (f : ℕ) : SameGeometry s (s.release f) := ⟨rfl, rfl, rfl, rfl⟩

/-- A frame `pmm_alloc_frame` may return. -/
def Free (frame : ℕ) : Prop := 0 < frame ∧ frame < s.totalFrames ∧ s.used frame = false

instance (frame : ℕ) : Decidable (s.Free frame) := inferInstanceAs (Decidable (_ ∧ _ ∧ _))

end Pmm

/-! ## Allocation -/

/-- The search finds the lowest free frame. -/
theorem findFreeFrame_eq_some (h : findFreeFrame s = some f) :
    s.Free f ∧ ∀ g, 0 < g → g < f → s.used g = true := by
  have hmem := List.mem_of_find?_eq_some h
  have hbit := List.find?_some h
  rw [List.mem_range'_1] at hmem
  simp only [Bool.not_eq_true'] at hbit
  refine ⟨⟨by omega, by omega, hbit⟩, fun g hpos hlt => ?_⟩
  obtain ⟨-, pre, post, hsplit, hpre⟩ := List.find?_eq_some_iff_append.mp h
  -- the frames before the one found are exactly `1, …, f - 1`
  have hlen : pre.length = f - 1 := by
    have hget : (List.range' 1 (s.totalFrames - 1))[pre.length]? = some f := by
      rw [hsplit]
      simp
    rw [List.getElem?_range' (by
      have := congrArg List.length hsplit
      simp at this
      omega)] at hget
    simp at hget
    omega
  have hg : g ∈ pre := by
    have hget : (List.range' 1 (s.totalFrames - 1))[g - 1]? = some g := by
      rw [List.getElem?_range' (by omega)]
      simp
      omega
    rw [hsplit, List.getElem?_append_left (by omega)] at hget
    exact List.mem_of_getElem? hget
  simpa using hpre g hg

/-- The search fails only if no frame is free. -/
theorem findFreeFrame_eq_none (h : findFreeFrame s = none) (f : ℕ) :
    ¬ s.Free f := by
  rintro ⟨hpos, hlt, hbit⟩
  rw [findFreeFrame, List.find?_eq_none] at h
  have := h f (by rw [List.mem_range'_1]; omega)
  simp [hbit] at this

/-- **The two outcomes of `pmm_alloc_frame`.**  Either nothing changes and the
answer is `0`, or the lowest free frame is reserved and its address returned. -/
theorem pmmAllocFrame_cases (s : Pmm) :
    pmmAllocFrame s = (0, s) ∧ (s.frameBitmap ≠ 0 → ∀ f, ¬ s.Free f) ∨
      ∃ f, s.Free f ∧ (∀ g, 0 < g → g < f → s.used g = true) ∧ s.frameBitmap ≠ 0 ∧
        pmmAllocFrame s = (frameAddress f, s.reserve f) := by
  unfold pmmAllocFrame
  split
  · next hnull => exact .inl ⟨rfl, fun h => absurd hnull h⟩
  · next hinstalled =>
    cases hfind : findFreeFrame s with
    | none => exact .inl ⟨rfl, fun _ => findFreeFrame_eq_none hfind⟩
    | some f =>
        obtain ⟨hfree, hlow⟩ := findFreeFrame_eq_some hfind
        exact .inr ⟨f, hfree, hlow, hinstalled, rfl⟩

theorem sameGeometry_pmmAllocFrame (s : Pmm) : s.SameGeometry (pmmAllocFrame s).2 := by
  rcases pmmAllocFrame_cases s with ⟨h, -⟩ | ⟨f, -, -, -, h⟩
  · rw [h]
  · rw [h]
    exact s.sameGeometry_reserve f

/-! ## Release -/

/-- The guards of `pmm_free_frame`: the addresses it acts on. -/
structure Pmm.Releases (s : Pmm) (a : Word) : Prop where
  installed : s.frameBitmap ≠ 0
  nonzero : a ≠ 0
  aligned : a.toNat % 4096 = 0
  inRange : frameOf a < s.totalFrames
  used : s.used (frameOf a) = true
  notBitmap : ¬ s.IsBitmapFrame (frameOf a)

/-- A frame that may be freed is freed. -/
theorem pmmFreeFrame_of_releases (h : s.Releases a) :
    pmmFreeFrame s a = s.release (frameOf a) := by
  have halign := (and_pageMask_eq_zero_iff a).mpr h.aligned
  have hrange : ¬ s.totalFrames ≤ frameOf a := Nat.not_le.mpr h.inRange
  simp only [pmmFreeFrame, h.installed, h.nonzero, halign, hrange, h.used, h.notBitmap,
    if_false, ne_eq, not_true, reduceCtorEq]

/-- **The two outcomes of `pmm_free_frame`.**  Either some guard drops the call,
or exactly that frame's bit is cleared. -/
theorem pmmFreeFrame_cases (s : Pmm) (a : Word) :
    (¬ s.Releases a ∧ pmmFreeFrame s a = s) ∨
      (s.Releases a ∧ pmmFreeFrame s a = s.release (frameOf a)) := by
  by_cases h : s.Releases a
  · exact .inr ⟨h, pmmFreeFrame_of_releases h⟩
  · refine .inl ⟨h, ?_⟩
    unfold pmmFreeFrame
    split_ifs with hnull hzero halign hrange hbit hown
    all_goals first | rfl | skip
    exact absurd ⟨hnull, hzero, (and_pageMask_eq_zero_iff a).mp (not_not.mp halign),
      Nat.not_le.mp hrange, by simpa using hbit, hown⟩ h

theorem sameGeometry_pmmFreeFrame (s : Pmm) (a : Word) :
    s.SameGeometry (pmmFreeFrame s a) := by
  rcases pmmFreeFrame_cases s a with ⟨-, h⟩ | ⟨-, h⟩
  · rw [h]
  · rw [h]
    exact s.sameGeometry_release _

/-- `pmm_free_frame` never touches the bit of another frame. -/
theorem used_pmmFreeFrame_of_ne (s : Pmm) (a : Word) (hne : f ≠ frameOf a) :
    (pmmFreeFrame s a).used f = s.used f := by
  rcases pmmFreeFrame_cases s a with ⟨-, h⟩ | ⟨-, h⟩
  · rw [h]
  · rw [h, Pmm.used_release]
    simp [hne]

end Batos
