import Batos.Pmm.Init
import Batos.Lib.Run

/-!
# Runs of the physical memory manager

Callers of the PMM see two operations.  A run starts from the state `pmm_init`
leaves and remembers, beside the PMM's own variables, which addresses are
outstanding: returned by `pmm_alloc_frame` and not passed to `pmm_free_frame`
since.

Two things are settled here.  The counter `free_frames` is off by the size of the
bitmap in every state of every run (`freeFrames_run`): `bitmap_set_range` sets
bits without counting them off.  And the frames handed out are safe as long as
nobody frees reserved memory: one bit encodes both "allocated" and "reserved", so
`pmm_free_frame` on the address of, say, a frame of the kernel image clears a bit
that only `pmm_init` may decide, and the frame becomes allocatable.
-/

namespace Batos

variable {s : Pmm} {boot : LimineResponse} {entries : List LimineMemmapEntry} {r : PmmRun}

/-- The calls a client makes. -/
inductive PmmOp
  | alloc
  | free (address : Word)
  deriving DecidableEq, Repr

/-- The PMM together with the outstanding addresses. -/
structure PmmRun where
  pmm : Pmm
  outstanding : List Word

/-- One call. -/
def PmmRun.step (r : PmmRun) : PmmOp → PmmRun
  | .alloc =>
      { pmm := (pmmAllocFrame r.pmm).2
        outstanding :=
          if (pmmAllocFrame r.pmm).1 = 0 then r.outstanding
          else (pmmAllocFrame r.pmm).1 :: r.outstanding }
  | .free address =>
      { pmm := pmmFreeFrame r.pmm address
        outstanding := r.outstanding.filter (· ≠ address) }

/-- The calls with arbitrary arguments. -/
def pmmSystem : TransitionSystem PmmRun PmmOp where
  enabled _ _ := True
  step := PmmRun.step

/-- A run is started by `pmm_init` on the zeroed static variables. -/
def PmmRun.init (boot : LimineResponse) : PmmRun := ⟨pmmInit boot {}, []⟩

/-- A call that frees no reserved memory: it is `pmm_alloc_frame`, or one of the
guards of `pmm_free_frame` drops it, or the page lies inside a usable entry. -/
def PmmOp.Harmless (entries : List LimineMemmapEntry) (r : PmmRun) : PmmOp → Prop
  | .alloc => True
  | .free address => r.pmm.Releases address → InUsable entries (frameOf address)

/-- The calls that free no reserved memory. -/
def harmlessPmmSystem (entries : List LimineMemmapEntry) : TransitionSystem PmmRun PmmOp where
  enabled r op := op.Harmless entries r
  step := PmmRun.step

theorem pmmSystem_admissible (r : PmmRun) (ops : List PmmOp) : pmmSystem.Admissible r ops := by
  induction ops generalizing r with
  | nil => trivial
  | cons op ops ih => exact ⟨trivial, ih _⟩

/-! ## Facts every call preserves -/

namespace Pmm

/-- What the layers above rely on: frame addresses fit a page-table entry, and
the bitmap's own frames are never free. -/
structure Sound (s : Pmm) : Prop where
  total_le : s.totalFrames ≤ 2 ^ 40
  bitmap_used : s.frameBitmap ≠ 0 → ∀ f, s.IsBitmapFrame f → s.used f = true

theorem Sound.of_sameGeometry {t : Pmm} (h : s.Sound) (hgeom : s.SameGeometry t)
    (hused : ∀ f, s.IsBitmapFrame f → s.used f = true → t.used f = true) : t.Sound := by
  refine ⟨hgeom.totalFrames.trans_le h.total_le, fun hinstalled f hf => ?_⟩
  have hown := (hgeom.isBitmapFrame_iff f).mp hf
  exact hused f hown (h.bitmap_used (hgeom.frameBitmap ▸ hinstalled) f hown)

theorem Sound.reserve (h : s.Sound) (f : ℕ) : (s.reserve f).Sound :=
  h.of_sameGeometry (s.sameGeometry_reserve f) fun g _ hused => by simp [hused]

/-- Freeing never gives the bitmap's frames away. -/
theorem Sound.free (h : s.Sound) (a : Word) : (pmmFreeFrame s a).Sound := by
  rcases pmmFreeFrame_cases s a with ⟨-, heq⟩ | ⟨hrel, heq⟩
  · rwa [heq]
  · rw [heq]
    refine h.of_sameGeometry (s.sameGeometry_release _) fun g hown hused => ?_
    have hne : g ≠ frameOf a := by
      rintro rfl
      exact hrel.notBitmap hown
    simp [hne, hused]

/-- Allocating keeps the books. -/
theorem Sound.alloc (h : s.Sound) : (pmmAllocFrame s).2.Sound := by
  rcases pmmAllocFrame_cases s with ⟨heq, -⟩ | ⟨f, -, -, -, heq⟩
  · rwa [heq]
  · rw [heq]
    exact h.reserve f

end Pmm

/-- **Initialisation establishes the invariant.** -/
theorem sound_pmmInit (hmap : boot.memmap = some entries) (hbound : EndsBelow52 entries) :
    (pmmInit boot {}).Sound := by
  by_cases hinstalled : (pmmInit boot {}).frameBitmap = 0
  · refine ⟨?_, fun h => absurd hinstalled h⟩
    have hle := totalFramesOf_le hbound
    obtain ⟨memmap, hhdm⟩ := boot
    obtain rfl : memmap = some entries := hmap
    have hfold : ∀ s : Pmm, (installBitmap entries s).totalFrames = s.totalFrames := by
      intro s
      unfold installBitmap
      dsimp only
      split
      · exact (foldl_releaseUsable entries hbound _).1.totalFrames
      · exact (foldl_releaseUsable entries hbound _).1.totalFrames
    cases hhdm with
    | none => exact Nat.zero_le _
    | some offset =>
        unfold pmmInit
        dsimp only
        split
        · exact hle
        · split
          · exact hle
          · rw [hfold]
            exact hle
  · obtain ⟨htotal, hused, hown, -, -⟩ := pmmInit_spec hmap hbound hinstalled
    refine ⟨htotal.trans_le (totalFramesOf_le hbound), fun _ f hf => ?_⟩
    by_contra hclear
    exact ((hused f (hown f hf)).mp (by simpa using hclear)).2.1 hf

/-! ## The counter -/

/-- The surplus of the counter over the number of clear bits never changes. -/
theorem counted_step {k : ℕ} (hroom : r.pmm.totalFrames + k < 2 ^ 64) (h : r.pmm.Counted k)
    (op : PmmOp) : (r.step op).pmm.Counted k := by
  cases op with
  | alloc =>
      change (pmmAllocFrame r.pmm).2.Counted k
      rcases pmmAllocFrame_cases r.pmm with ⟨heq, -⟩ | ⟨f, hfree, -, -, heq⟩
      · rwa [heq]
      · rw [heq]
        exact h.reserve hfree.2.1 hfree.2.2
  | free a =>
      change (pmmFreeFrame r.pmm a).Counted k
      rcases pmmFreeFrame_cases r.pmm a with ⟨-, heq⟩ | ⟨hrel, heq⟩
      · rwa [heq]
      · rw [heq]
        exact h.release hrel.inRange hrel.used hroom

theorem sameGeometry_step (r : PmmRun) (op : PmmOp) : r.pmm.SameGeometry (r.step op).pmm := by
  cases op with
  | alloc => exact sameGeometry_pmmAllocFrame r.pmm
  | free a => exact sameGeometry_pmmFreeFrame r.pmm a

/-- After any calls the counter exceeds the number of clear bits by exactly the
number of frames of the bitmap. -/
theorem freeFrames_run (hmap : boot.memmap = some entries) (hbound : EndsBelow52 entries)
    (hinstalled : (pmmInit boot {}).frameBitmap ≠ 0) (ops : List PmmOp) :
    (pmmSystem.run (PmmRun.init boot) ops).pmm.Counted
        (pmmInit boot {}).bitmapFrameCount ∧
      (pmmSystem.run (PmmRun.init boot) ops).pmm.totalFrames = totalFramesOf entries ∧
      0 < (pmmInit boot {}).bitmapFrameCount ∧
      (pmmInit boot {}).bitmapFrameCount ≤ totalFramesOf entries := by
  obtain ⟨htotal, -, hown, hpos, hcount⟩ := pmmInit_spec hmap hbound hinstalled
  have hle := totalFramesOf_le hbound
  have hsmall : (pmmInit boot {}).bitmapFrameCount ≤ totalFramesOf entries := by
    have := hown ((pmmInit boot {}).bitmapFirstFrame + (pmmInit boot {}).bitmapFrameCount - 1)
      ⟨by omega, by omega⟩
    omega
  -- the invariant carries the geometry along, because releasing needs room below `2 ^ 64`
  have hinv := pmmSystem.run_induction
    (fun r => r.pmm.Counted (pmmInit boot {}).bitmapFrameCount ∧
      r.pmm.totalFrames = totalFramesOf entries)
    (fun r op h _ => ⟨counted_step (by omega) h.1 op,
      (sameGeometry_step r op).totalFrames.trans h.2⟩)
    (s := PmmRun.init boot) ⟨hcount, htotal⟩ (pmmSystem_admissible _ ops)
  exact ⟨hinv.1, hinv.2, hpos, hsmall⟩

/-- **The accounting is never exact.**  Whatever the memory map and whatever the
calls, once the bitmap is installed neither counter agrees with the bitmap. -/
theorem accounting_never_exact {boot : LimineResponse} {entries : List LimineMemmapEntry}
    (hmap : boot.memmap = some entries) (hbound : EndsBelow52 entries)
    (hinstalled : (pmmInit boot {}).frameBitmap ≠ 0) (ops : List PmmOp) :
    pmmGetFreeFrames (pmmSystem.run (PmmRun.init boot) ops).pmm ≠
        (pmmSystem.run (PmmRun.init boot) ops).pmm.clearFrames ∧
      pmmGetUsedFrames (pmmSystem.run (PmmRun.init boot) ops).pmm ≠
        (pmmSystem.run (PmmRun.init boot) ops).pmm.setFrames := by
  obtain ⟨hcount, htotal, hpos, hsmall⟩ := freeFrames_run hmap hbound hinstalled ops
  have hle := totalFramesOf_le hbound
  have hsum := (pmmSystem.run (PmmRun.init boot) ops).pmm.clearFrames_add_setFrames
  unfold Pmm.Counted at hcount
  unfold pmmGetFreeFrames pmmGetUsedFrames wrap64
  constructor <;> omega

/-- A small machine: 16 KiB of usable memory at `0x1000` and one reserved page
above it. -/
def demoEntries : List LimineMemmapEntry := [⟨0x1000, 0x4000, 0⟩, ⟨0x5000, 0x1000, 1⟩]

/-- The small machine with the higher-half direct map where Limine puts it. -/
def demoResponse : LimineResponse where
  memmap := some demoEntries
  hhdmOffset := some 0xffff800000000000

theorem accounting_never_exact_demo :
    pmmGetFreeFrames (pmmSystem.run (PmmRun.init demoResponse) [.alloc, .free 0x2000]).pmm ≠
        (pmmSystem.run (PmmRun.init demoResponse) [.alloc, .free 0x2000]).pmm.clearFrames ∧
      pmmGetUsedFrames (pmmSystem.run (PmmRun.init demoResponse) [.alloc, .free 0x2000]).pmm ≠
        (pmmSystem.run (PmmRun.init demoResponse) [.alloc, .free 0x2000]).pmm.setFrames :=
  @accounting_never_exact demoResponse demoEntries rfl (by decide) (by decide) _

/-- Right after `pmm_init` on the small machine the counter says four free
frames, and three bits are clear. -/
theorem accounting_off_after_init :
    EndsBelow52 demoEntries ∧ (pmmInit demoResponse {}).frameBitmap ≠ 0 ∧
      pmmGetFreeFrames (pmmSystem.run (PmmRun.init demoResponse) []).pmm = 4 ∧
      (pmmSystem.run (PmmRun.init demoResponse) []).pmm.clearFrames = 3 ∧
      pmmGetUsedFrames (pmmSystem.run (PmmRun.init demoResponse) []).pmm = 2 ∧
      (pmmSystem.run (PmmRun.init demoResponse) []).pmm.setFrames = 3 := by
  decide

/-! ## Safety of the frames handed out -/

/-- What a client may expect of an address `pmm_alloc_frame` returns. -/
structure SafeAnswer (entries : List LimineMemmapEntry) (r : PmmRun) (a : Word) : Prop where
  aligned : a.toNat % 4096 = 0
  usable : InUsable entries (frameOf a)
  not_frame_zero : frameOf a ≠ 0
  not_bitmap : ¬ r.pmm.IsBitmapFrame (frameOf a)
  not_outstanding : a ∉ r.outstanding

/-- Facts that hold in every run: the geometry is sound and an outstanding frame
keeps its bit. -/
structure PmmRun.Owned (r : PmmRun) : Prop where
  sound : r.pmm.Sound
  aligned : ∀ a ∈ r.outstanding, a.toNat % 4096 = 0
  used : ∀ a ∈ r.outstanding, r.pmm.used (frameOf a) = true

theorem owned_init (hmap : boot.memmap = some entries) (hbound : EndsBelow52 entries) :
    (PmmRun.init boot).Owned :=
  ⟨sound_pmmInit hmap hbound, fun _ h => absurd h List.not_mem_nil,
    fun _ h => absurd h List.not_mem_nil⟩

/-- **A step keeps clients apart.** -/
theorem owned_step (h : r.Owned) (op : PmmOp) : (r.step op).Owned := by
  cases op with
  | alloc =>
      refine ⟨h.sound.alloc, ?_, ?_⟩
      all_goals
        intro a ha
        simp only [PmmRun.step] at ha ⊢
        rcases pmmAllocFrame_cases r.pmm with ⟨heq, -⟩ | ⟨f, hfree, -, -, heq⟩
      · rw [heq, if_pos rfl] at ha
        exact h.aligned a ha
      · have hlt : f < 2 ^ 52 := by
          have := h.sound.total_le
          have := hfree.2.1
          omega
        rw [heq, if_neg (frameAddress_ne_zero hlt hfree.1)] at ha
        rcases List.mem_cons.mp ha with rfl | ha
        · exact frameAddress_aligned hlt
        · exact h.aligned a ha
      · rw [heq, if_pos rfl] at ha
        rw [heq]
        exact h.used a ha
      · have hlt : f < 2 ^ 52 := by
          have := h.sound.total_le
          have := hfree.2.1
          omega
        rw [heq, if_neg (frameAddress_ne_zero hlt hfree.1)] at ha
        rw [heq, Pmm.used_reserve]
        rcases List.mem_cons.mp ha with rfl | ha
        · simp [frameOf_frameAddress hlt]
        · simp [h.used a ha]
  | free address =>
      refine ⟨h.sound.free address, ?_, ?_⟩
      all_goals
        intro a ha
        simp only [PmmRun.step, List.mem_filter, decide_eq_true_eq] at ha ⊢
      · exact h.aligned a ha.1
      · rcases pmmFreeFrame_cases r.pmm address with ⟨-, heq⟩ | ⟨hrel, heq⟩
        · rw [heq]
          exact h.used a ha.1
        · have hne : frameOf a ≠ frameOf address := fun hframe =>
            ha.2 (frameOf_inj (h.aligned a ha.1) hrel.aligned hframe)
          rw [heq, Pmm.used_release]
          simp [hne, h.used a ha.1]

/-- Every frame the PMM may still hand out is usable memory. -/
def PmmRun.FreeUsable (entries : List LimineMemmapEntry) (r : PmmRun) : Prop :=
  r.pmm.frameBitmap ≠ 0 → ∀ f, r.pmm.Free f → InUsable entries f

/-- Harmless calls free usable frames only. -/
theorem freeUsable_step (h : r.FreeUsable entries) {op : PmmOp} (hop : op.Harmless entries r) :
    (r.step op).FreeUsable entries := by
  intro hinstalled f hfree
  have hgeom := sameGeometry_step r op
  rw [hgeom.frameBitmap] at hinstalled
  cases op with
  | alloc =>
      simp only [PmmRun.step] at hfree
      rcases pmmAllocFrame_cases r.pmm with ⟨heq, -⟩ | ⟨g, -, -, -, heq⟩
      · rw [heq] at hfree
        exact h hinstalled f hfree
      · rw [heq] at hfree
        refine h hinstalled f ⟨hfree.1, hfree.2.1, ?_⟩
        have hclear := hfree.2.2
        rw [Pmm.used_reserve, Bool.or_eq_false_iff] at hclear
        exact hclear.2
  | free address =>
      simp only [PmmRun.step] at hfree
      rcases pmmFreeFrame_cases r.pmm address with ⟨-, heq⟩ | ⟨hrel, heq⟩
      · rw [heq] at hfree
        exact h hinstalled f hfree
      · by_cases hframe : f = frameOf address
        · rw [hframe]
          exact hop hrel
        · rw [heq] at hfree
          refine h hinstalled f ⟨hfree.1, hfree.2.1, ?_⟩
          have hclear := hfree.2.2
          rw [Pmm.used_release] at hclear
          simpa [hframe] using hclear

theorem freeUsable_init (hmap : boot.memmap = some entries) (hbound : EndsBelow52 entries) :
    (PmmRun.init boot).FreeUsable entries := by
  intro hinstalled f hfree
  obtain ⟨htotal, hused, -⟩ := pmmInit_spec hmap hbound hinstalled
  exact ((hused f (htotal ▸ hfree.2.1)).mp hfree.2.2).1

/-- One allocation, in a state where the free frames are usable memory. -/
theorem safeAnswer_of_freeUsable (howned : r.Owned) (husable : r.FreeUsable entries)
    (hsome : (pmmAllocFrame r.pmm).1 ≠ 0) :
    SafeAnswer entries r (pmmAllocFrame r.pmm).1 := by
  rcases pmmAllocFrame_cases r.pmm with ⟨heq, -⟩ | ⟨f, hfree, -, hinstalled, heq⟩
  · exact absurd (by rw [heq]) hsome
  · have hlt : f < 2 ^ 52 := by
      have := howned.sound.total_le
      have := hfree.2.1
      omega
    rw [heq]
    refine ⟨frameAddress_aligned hlt, ?_, ?_, ?_, fun hout => ?_⟩
    · rw [frameOf_frameAddress hlt]
      exact husable hinstalled f hfree
    · rw [frameOf_frameAddress hlt]
      exact hfree.1.ne'
    · rw [frameOf_frameAddress hlt]
      intro hown
      have hbit := howned.sound.bitmap_used hinstalled f hown
      rw [hfree.2.2] at hbit
      exact absurd hbit (by decide)
    · have hbit := howned.used _ hout
      rw [frameOf_frameAddress hlt, hfree.2.2] at hbit
      exact absurd hbit (by decide)

/-- **The PMM hands out only safe frames, as long as no call frees reserved
memory.**  In every run whose calls are all harmless, the next address
`pmm_alloc_frame` returns is safe. -/
theorem alloc_safe_of_harmless {boot : LimineResponse} {entries : List LimineMemmapEntry}
    (hmap : boot.memmap = some entries) (hbound : EndsBelow52 entries) {ops : List PmmOp}
    (hops : (harmlessPmmSystem entries).Admissible (PmmRun.init boot) ops)
    (hsome : (pmmAllocFrame
      ((harmlessPmmSystem entries).run (PmmRun.init boot) ops).pmm).1 ≠ 0) :
    SafeAnswer entries ((harmlessPmmSystem entries).run (PmmRun.init boot) ops)
      (pmmAllocFrame ((harmlessPmmSystem entries).run (PmmRun.init boot) ops).pmm).1 := by
  have hinv := (harmlessPmmSystem entries).run_induction
    (fun r => r.Owned ∧ r.FreeUsable entries)
    (fun r op h hop => ⟨owned_step h.1 op, freeUsable_step h.2 hop⟩)
    (s := PmmRun.init boot)
    ⟨owned_init hmap hbound, freeUsable_init hmap hbound⟩ hops
  exact safeAnswer_of_freeUsable hinv.1 hinv.2 hsome

/-- On the small machine: an allocation, a legitimate release and a release that
the guards drop, then a frame is handed out. -/
theorem alloc_safe_of_harmless_demo :
    SafeAnswer demoEntries
      ((harmlessPmmSystem demoEntries).run (PmmRun.init demoResponse)
        [.alloc, .free 0x2000, .free 0x2008])
      (pmmAllocFrame ((harmlessPmmSystem demoEntries).run (PmmRun.init demoResponse)
        [.alloc, .free 0x2000, .free 0x2008]).pmm).1 :=
  @alloc_safe_of_harmless demoResponse demoEntries rfl (by decide) _
    ⟨trivial, fun _ => by decide, fun _ => by decide, trivial⟩ (by decide)

/-- Freeing the reserved page makes it allocatable: after `pmm_free_frame(0x5000)`
and three allocations the next answer is `0x5000`, outside all usable memory. -/
theorem reserved_frame_handed_out :
    EndsBelow52 demoEntries ∧ UsableDisjoint demoEntries ∧
      (pmmAllocFrame (pmmSystem.run (PmmRun.init demoResponse)
        [.free 0x5000, .alloc, .alloc, .alloc]).pmm).1 = 0x5000 ∧
      ¬ SafeAnswer demoEntries
        (pmmSystem.run (PmmRun.init demoResponse) [.free 0x5000, .alloc, .alloc, .alloc])
        (pmmAllocFrame (pmmSystem.run (PmmRun.init demoResponse)
          [.free 0x5000, .alloc, .alloc, .alloc]).pmm).1 := by
  have hanswer : (pmmAllocFrame (pmmSystem.run (PmmRun.init demoResponse)
      [.free 0x5000, .alloc, .alloc, .alloc]).pmm).1 = 0x5000 := by decide
  refine ⟨by decide, by decide, hanswer, fun hsafe => ?_⟩
  have husable := hsafe.usable
  rw [hanswer] at husable
  exact absurd husable (by decide)

end Batos
