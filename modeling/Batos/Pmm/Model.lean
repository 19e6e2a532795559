import Mathlib

/-!
# The physical memory manager

`kernel/mm/pmm/pmm.c` hands out 4 KiB frames from a bitmap it builds once, at
boot, from the memory map the Limine loader leaves behind.  One bit stands for
one frame, and a set bit means *not available*: the same bit says "reserved by
the firmware", "occupied by the bitmap itself" and "handed out to a caller".

The bitmap is kept here byte by byte, with the shifts of the source, and every
later argument goes through the two equations `bitmapTest_bitmapSet` and
`bitmapTest_bitmapClear`, which say that the bytes behave as a set of frames.
Addresses that cross the interface are 64-bit words; frame numbers and counters
are natural numbers, wrapped to 64 bits where the source can wrap.
-/

namespace Batos

open BitVec

/-- `uint64_t`, as it appears at the interface of every memory subsystem. -/
abbrev Word := BitVec 64

/-- The value a `uint64_t` holds after storing the natural number `n`. -/
def wrap64 (n : ℕ) : ℕ := n % 2 ^ 64

theorem wrap64_of_lt {n : ℕ} (h : n < 2 ^ 64) : wrap64 n = n :=
  Nat.mod_eq_of_lt h

/-- `align_up`: round up to a page, in 64-bit arithmetic. -/
def alignUp (value : ℕ) : ℕ := wrap64 (value + 4095) / 4096 * 4096

/-- `align_down`: round down to a page. -/
def alignDown (value : ℕ) : ℕ := value / 4096 * 4096

/-! ## The bitmap -/

/-- The bytes of the frame bitmap, by offset from `frame_bitmap`. -/
abbrev Bitmap := ℕ → BitVec 8

/-- `bitmap_set`. -/
def bitmapSet (bytes : Bitmap) (frame : ℕ) : Bitmap :=
  Function.update bytes (frame / 8) (bytes (frame / 8) ||| 1#8 <<< (frame % 8))

/-- `bitmap_clear`. -/
def bitmapClear (bytes : Bitmap) (frame : ℕ) : Bitmap :=
  Function.update bytes (frame / 8) (bytes (frame / 8) &&& ~~~(1#8 <<< (frame % 8)))

/-- `bitmap_test`: whether the byte it returns is non-zero. -/
def bitmapTest (bytes : Bitmap) (frame : ℕ) : Bool :=
  (bytes (frame / 8) &&& 1#8 <<< (frame % 8)) != 0#8

theorem one_shiftLeft_getLsbD (k i : ℕ) (hk : k < 8) :
    (1#8 <<< k).getLsbD i = decide (i = k) := by
  rw [getLsbD_shiftLeft]
  by_cases hik : i < k
  · simp [hik, Nat.ne_of_lt hik]
  · rw [getLsbD_one]
    by_cases heq : i = k
    · subst heq
      simp [hk]
    · have : i - k ≠ 0 := by omega
      simp [heq, this]

/-- The byte test reads one bit. -/
theorem bitmapTest_eq_getLsbD (bytes : Bitmap) (frame : ℕ) :
    bitmapTest bytes frame = (bytes (frame / 8)).getLsbD (frame % 8) := by
  have hk : frame % 8 < 8 := Nat.mod_lt _ (by decide)
  rw [bitmapTest, Bool.eq_iff_iff, bne_iff_ne]
  constructor
  · intro hne
    by_contra hbit
    refine hne (eq_of_getLsbD_eq fun i hi => ?_)
    rw [getLsbD_and, one_shiftLeft_getLsbD _ _ hk, getLsbD_zero]
    by_cases heq : i = frame % 8
    · subst heq
      simp [Bool.not_eq_true _ |>.mp hbit]
    · simp [heq]
  · intro hbit hzero
    have hread := congrArg (fun byte => byte.getLsbD (frame % 8)) hzero
    simp [one_shiftLeft_getLsbD _ _ hk, hbit] at hread

theorem frame_eq_iff (f g : ℕ) : g = f ↔ g / 8 = f / 8 ∧ g % 8 = f % 8 := by
  omega

/-- Setting a bit sets that frame and no other. -/
@[simp] theorem bitmapTest_bitmapSet (bytes : Bitmap) (f g : ℕ) :
    bitmapTest (bitmapSet bytes f) g = (decide (g = f) || bitmapTest bytes g) := by
  have hk : f % 8 < 8 := Nat.mod_lt _ (by decide)
  rw [bitmapTest_eq_getLsbD, bitmapTest_eq_getLsbD, bitmapSet]
  by_cases hbyte : g / 8 = f / 8
  · rw [hbyte, Function.update_self, getLsbD_or,
      one_shiftLeft_getLsbD _ _ hk, Bool.or_comm]
    simp [frame_eq_iff f g, hbyte]
  · rw [Function.update_of_ne hbyte]
    have hne : g ≠ f := fun heq => hbyte (by rw [heq])
    simp [hne]

/-- Clearing a bit clears that frame and no other. -/
@[simp] theorem bitmapTest_bitmapClear (bytes : Bitmap) (f g : ℕ) :
    bitmapTest (bitmapClear bytes f) g = (!decide (g = f) && bitmapTest bytes g) := by
  have hk : f % 8 < 8 := Nat.mod_lt _ (by decide)
  have hg : g % 8 < 8 := Nat.mod_lt _ (by decide)
  rw [bitmapTest_eq_getLsbD, bitmapTest_eq_getLsbD, bitmapClear]
  by_cases hbyte : g / 8 = f / 8
  · rw [hbyte, Function.update_self, getLsbD_and, getLsbD_not,
      one_shiftLeft_getLsbD _ _ hk, Bool.and_comm]
    simp [frame_eq_iff f g, hbyte, hg]
  · rw [Function.update_of_ne hbyte]
    have hne : g ≠ f := fun heq => hbyte (by rw [heq])
    simp [hne]

/-- Bitmaps that agree on every frame are the same bytes. -/
theorem bitmap_ext {bytes bytes' : Bitmap} (h : ∀ f, bitmapTest bytes f = bitmapTest bytes' f) :
    bytes = bytes' := by
  funext index
  refine eq_of_getLsbD_eq fun i hi => ?_
  have hbit := h (8 * index + i)
  have hdiv : (8 * index + i) / 8 = index := by omega
  have hmod : (8 * index + i) % 8 = i := by omega
  rw [bitmapTest_eq_getLsbD, bitmapTest_eq_getLsbD, hdiv, hmod] at hbit
  exact hbit

/-! ## State and boot information -/

/-- One entry of the Limine memory map. -/
structure LimineMemmapEntry where
  base : ℕ
  length : ℕ
  type : ℕ
  deriving DecidableEq, Repr

/-- `LIMINE_MEMMAP_USABLE`. -/
abbrev limineMemmapUsable : ℕ := 0

/-- What the loader answered to the two requests of `pmm.c`; `none` is a `NULL`
response pointer. -/
structure LimineResponse where
  memmap : Option (List LimineMemmapEntry)
  hhdmOffset : Option ℕ

/-- The static variables of `pmm.c`.  `frameBitmap` is the virtual address of
the bitmap (`0` while it is `NULL`) and `bitmapBytes` what that address points
to. -/
structure Pmm where
  frameBitmap : ℕ := 0
  bitmapBytes : Bitmap := fun _ => 0
  hhdmOffset : ℕ := 0
  bitmapPhysical : ℕ := 0
  bitmapSize : ℕ := 0
  totalFrames : ℕ := 0
  freeFrames : ℕ := 0

namespace Pmm

/-- The bit of a frame. -/
def used (s : Pmm) (frame : ℕ) : Bool := bitmapTest s.bitmapBytes frame

/-- The first frame of the bitmap itself. -/
def bitmapFirstFrame (s : Pmm) : ℕ := s.bitmapPhysical / 4096

/-- The number of frames the bitmap occupies. -/
def bitmapFrameCount (s : Pmm) : ℕ := alignUp s.bitmapSize / 4096

/-- The frames that hold the bitmap. -/
def IsBitmapFrame (s : Pmm) (frame : ℕ) : Prop :=
  s.bitmapFirstFrame ≤ frame ∧ frame < s.bitmapFirstFrame + s.bitmapFrameCount

instance (s : Pmm) (frame : ℕ) : Decidable (s.IsBitmapFrame frame) :=
  inferInstanceAs (Decidable (_ ∧ _))

/-- Mark a frame used and count it off, never below zero. -/
def reserve (s : Pmm) (frame : ℕ) : Pmm :=
  { s with
    bitmapBytes := bitmapSet s.bitmapBytes frame
    freeFrames := if 0 < s.freeFrames then s.freeFrames - 1 else s.freeFrames }

/-- Mark a frame free and count it. -/
def release (s : Pmm) (frame : ℕ) : Pmm :=
  { s with
    bitmapBytes := bitmapClear s.bitmapBytes frame
    freeFrames := wrap64 (s.freeFrames + 1) }

end Pmm

/-! ## Initialisation -/

/-- `bitmap_set_range`. -/
def bitmapSetRange (bytes : Bitmap) (startFrame : ℕ) : ℕ → Bitmap
  | 0 => bytes
  | i + 1 => bitmapSet (bitmapSetRange bytes startFrame i) (startFrame + i)

/-- `bitmap_clear_range`, together with the counter it maintains. -/
def bitmapClearRange (s : Pmm) (startFrame : ℕ) : ℕ → Pmm
  | 0 => s
  | i + 1 =>
      let s := bitmapClearRange s startFrame i
      let frame := startFrame + i
      if s.used frame then s.release frame else s

namespace LimineMemmapEntry

/-- `base + length`, in 64-bit arithmetic. -/
def limit (entry : LimineMemmapEntry) : ℕ := wrap64 (entry.base + entry.length)

/-- The first page boundary inside the entry. -/
def start (entry : LimineMemmapEntry) : ℕ := alignUp entry.base

/-- The last page boundary inside the entry. -/
def stop (entry : LimineMemmapEntry) : ℕ := alignDown entry.limit

end LimineMemmapEntry

/-- `find_bitmap_location`: the first usable entry with room, or `0`. -/
def findBitmapLocation (requiredSize : ℕ) : List LimineMemmapEntry → ℕ
  | [] => 0
  | entry :: rest =>
      if entry.type ≠ limineMemmapUsable then findBitmapLocation requiredSize rest
      else if entry.stop ≤ entry.start then findBitmapLocation requiredSize rest
      else if entry.stop - entry.start ≥ requiredSize then entry.start
      else findBitmapLocation requiredSize rest

/-- The highest address the memory map describes. -/
def highestAddress (entries : List LimineMemmapEntry) : ℕ :=
  entries.foldl (fun highest entry => max highest entry.limit) 0

/-- One turn of the loop of `pmm_init` that releases usable memory. -/
def releaseUsable (s : Pmm) (entry : LimineMemmapEntry) : Pmm :=
  if entry.type ≠ limineMemmapUsable then s
  else if entry.stop ≤ entry.start then s
  else bitmapClearRange s (entry.start / 4096) ((entry.stop - entry.start) / 4096)

/-- The tail of `pmm_init`, once the bitmap has a place: every frame starts
used, usable memory is released, then the bitmap's own frames and frame `0` are
taken back. -/
def installBitmap (entries : List LimineMemmapEntry) (s : Pmm) : Pmm :=
  let s :=
    { s with
      frameBitmap := wrap64 (s.bitmapPhysical + s.hhdmOffset)
      bitmapBytes := fun i => if i < s.bitmapSize then 0xFF#8 else s.bitmapBytes i
      freeFrames := 0 }
  let s := entries.foldl releaseUsable s
  let s :=
    { s with
      bitmapBytes :=
        bitmapSetRange s.bitmapBytes s.bitmapFirstFrame s.bitmapFrameCount }
  if 0 < s.totalFrames ∧ s.used 0 = false then s.reserve 0 else s

/-- `pmm_init`.  Each early `return` leaves the variables written so far. -/
def pmmInit (boot : LimineResponse) (s : Pmm) : Pmm :=
  match boot.memmap, boot.hhdmOffset with
  | some entries, some offset =>
      let s := { s with
        hhdmOffset := offset
        totalFrames := wrap64 (highestAddress entries + 4095) / 4096 }
      if s.totalFrames = 0 then s
      else
        let s := { s with bitmapSize := (s.totalFrames + 7) / 8 }
        let s := { s with
          bitmapPhysical := findBitmapLocation (alignUp s.bitmapSize) entries }
        if s.bitmapPhysical = 0 then s else installBitmap entries s
  | _, _ => s

/-! ## Allocation and release -/

/-- The address of a frame. -/
def frameAddress (frame : ℕ) : Word := BitVec.ofNat 64 (frame * 4096)

/-- The frame an address lies in. -/
def frameOf (address : Word) : ℕ := address.toNat / 4096

/-- The first frame, from `1` on, whose bit is clear. -/
def findFreeFrame (s : Pmm) : Option ℕ :=
  (List.range' 1 (s.totalFrames - 1)).find? fun frame => !s.used frame

/-- `pmm_alloc_frame`; the address is `0` when no frame is left. -/
def pmmAllocFrame (s : Pmm) : Word × Pmm :=
  if s.frameBitmap = 0 then (0, s)
  else
    match findFreeFrame s with
    | none => (0, s)
    | some frame => (frameAddress frame, s.reserve frame)

/-- `pmm_free_frame`. -/
def pmmFreeFrame (s : Pmm) (physicalAddress : Word) : Pmm :=
  if s.frameBitmap = 0 then s
  else if physicalAddress = 0 then s
  else if physicalAddress &&& 0xFFF ≠ 0 then s
  else if s.totalFrames ≤ frameOf physicalAddress then s
  else if s.used (frameOf physicalAddress) = false then s
  -- the frames of the bitmap itself are the one reservation that is re-checked
  else if s.IsBitmapFrame (frameOf physicalAddress) then s
  else s.release (frameOf physicalAddress)

/-- `pmm_get_free_frames`. -/
def pmmGetFreeFrames (s : Pmm) : ℕ := s.freeFrames

/-- `pmm_get_used_frames`, an unsigned subtraction. -/
def pmmGetUsedFrames (s : Pmm) : ℕ := wrap64 (s.totalFrames + 2 ^ 64 - s.freeFrames)

end Batos
