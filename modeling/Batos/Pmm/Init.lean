import Batos.Pmm.Frames

/-!
# What `pmm_init` installs

For a memory map whose entries end at or below `2 ^ 52` no step of `pmm_init`
wraps, and the state it leaves is described completely: a frame is clear exactly
when some usable entry contains its whole page, it is not a frame of the bitmap,
and it is not frame `0` (`used_pmmInit`).

The counter is another matter.  `free_frames` is kept up to date by the range
clear and by the reservation of frame `0`, but `bitmap_set_range` takes the
bitmap's own frames back without counting them off; `freeFrames_pmmInit` records
the surplus that this leaves.
-/

namespace Batos

open List

variable {entries : List LimineMemmapEntry} {e : LimineMemmapEntry} {s : Pmm} {f k : ℕ}

/-- `e` contains the whole page of the frame. -/
def LimineMemmapEntry.ContainsFrame (e : LimineMemmapEntry) (frame : ℕ) : Prop :=
  e.base ≤ frame * 4096 ∧ (frame + 1) * 4096 ≤ e.base + e.length

/-- The whole page of the frame lies inside a usable entry. -/
def InUsable (entries : List LimineMemmapEntry) (frame : ℕ) : Prop :=
  ∃ e ∈ entries, e.type = limineMemmapUsable ∧ e.ContainsFrame frame

instance (e : LimineMemmapEntry) (frame : ℕ) : Decidable (e.ContainsFrame frame) :=
  inferInstanceAs (Decidable (_ ∧ _))

instance (entries : List LimineMemmapEntry) (frame : ℕ) :
    Decidable (InUsable entries frame) :=
  inferInstanceAs (Decidable (∃ e ∈ entries, _ ∧ _))

/-- Every entry ends at or below `2 ^ 52`, the largest physical address an
x86-64 page-table entry can hold. -/
def EndsBelow52 (entries : List LimineMemmapEntry) : Prop :=
  ∀ e ∈ entries, e.base + e.length ≤ 2 ^ 52

instance (entries : List LimineMemmapEntry) : Decidable (EndsBelow52 entries) :=
  inferInstanceAs (Decidable (∀ e ∈ entries, _))

/-- No usable entry overlaps another entry. -/
def UsableDisjoint (entries : List LimineMemmapEntry) : Prop :=
  entries.Pairwise fun a b => a.type = limineMemmapUsable ∨ b.type = limineMemmapUsable →
    a.base + a.length ≤ b.base ∨ b.base + b.length ≤ a.base

instance (entries : List LimineMemmapEntry) : Decidable (UsableDisjoint entries) :=
  inferInstanceAs (Decidable (entries.Pairwise _))

/-! ## Page arithmetic without wrap-around -/

/-- Below `2 ^ 63` nothing wraps. -/
theorem alignUp_eq {v : ℕ} (h : v ≤ 2 ^ 63) : alignUp v = (v + 4095) / 4096 * 4096 := by
  rw [alignUp, wrap64_of_lt (by omega)]

namespace LimineMemmapEntry

variable {e : LimineMemmapEntry}

/-- The end of an entry does not wrap. -/
theorem limit_eq (h : e.base + e.length ≤ 2 ^ 52) : e.limit = e.base + e.length :=
  wrap64_of_lt (by omega)

theorem start_eq (h : e.base + e.length ≤ 2 ^ 52) :
    e.start = (e.base + 4095) / 4096 * 4096 :=
  alignUp_eq (by omega)

theorem stop_eq (h : e.base + e.length ≤ 2 ^ 52) :
    e.stop = (e.base + e.length) / 4096 * 4096 := by
  rw [stop, alignDown, limit_eq h]

/-- The pages between `start` and `stop` are the whole pages of the entry. -/
theorem containsFrame_iff (h : e.base + e.length ≤ 2 ^ 52) (f : ℕ) :
    e.ContainsFrame f ↔ e.start / 4096 ≤ f ∧ f < e.start / 4096 + (e.stop - e.start) / 4096 := by
  rw [ContainsFrame, start_eq h, stop_eq h]
  omega

end LimineMemmapEntry

/-! ## The highest address -/

/-- The maximum is a bound. -/
private theorem le_foldl_max (entries : List LimineMemmapEntry) :
    ∀ acc : ℕ, acc ≤ entries.foldl (fun highest e => max highest e.limit) acc ∧
      ∀ e ∈ entries, e.limit ≤ entries.foldl (fun highest e => max highest e.limit) acc := by
  induction entries with
  | nil => intro acc; simp
  | cons e rest ih =>
      intro acc
      obtain ⟨hacc, hrest⟩ := ih (max acc e.limit)
      rw [foldl_cons]
      refine ⟨le_trans (le_max_left _ _) hacc, fun e' he' => ?_⟩
      rcases mem_cons.mp he' with rfl | he'
      · exact le_trans (le_max_right _ _) hacc
      · exact hrest e' he'

theorem limit_le_highestAddress (he : e ∈ entries) : e.limit ≤ highestAddress entries :=
  (le_foldl_max entries 0).2 e he

/-- The maximum is the least bound. -/
private theorem foldl_max_le (entries : List LimineMemmapEntry) {bound : ℕ}
    (h : ∀ e ∈ entries, e.limit ≤ bound) :
    ∀ acc ≤ bound, entries.foldl (fun highest e => max highest e.limit) acc ≤ bound := by
  induction entries with
  | nil => intro acc hacc; exact hacc
  | cons e rest ih =>
      intro acc hacc
      rw [foldl_cons]
      exact ih (fun e' he' => h e' (mem_cons_of_mem _ he')) _
        (max_le hacc (h e mem_cons_self))

theorem highestAddress_le (h : EndsBelow52 entries) :
    highestAddress entries ≤ 2 ^ 52 :=
  foldl_max_le entries
    (fun e he => (LimineMemmapEntry.limit_eq (h e he)).trans_le (h e he)) 0 (by omega)

/-- The value `pmm_init` gives to `total_frames`. -/
def totalFramesOf (entries : List LimineMemmapEntry) : ℕ :=
  wrap64 (highestAddress entries + 4095) / 4096

/-- The frames below the highest address, the last one included. -/
theorem totalFramesOf_eq (h : EndsBelow52 entries) :
    totalFramesOf entries = (highestAddress entries + 4095) / 4096 := by
  have := highestAddress_le h
  rw [totalFramesOf, wrap64_of_lt (by omega)]

theorem totalFramesOf_le (h : EndsBelow52 entries) :
    totalFramesOf entries ≤ 2 ^ 40 := by
  have := highestAddress_le h
  rw [totalFramesOf_eq h]
  omega

/-! ## Range operations on the set of used frames -/

/-- Setting a range sets exactly its bits. -/
theorem bitmapTest_bitmapSetRange (bytes : Bitmap) (start f : ℕ) (n : ℕ) :
    bitmapTest (bitmapSetRange bytes start n) f =
      (decide (start ≤ f ∧ f < start + n) || bitmapTest bytes f) := by
  induction n with
  | zero => simp [bitmapSetRange]
  | succ n ih =>
      rw [bitmapSetRange, bitmapTest_bitmapSet, ih, ← Bool.or_assoc]
      congr 1
      rw [← Bool.decide_or, decide_eq_decide]
      omega

theorem bitmapClearRange_sameGeometry (s : Pmm) (start n : ℕ) :
    s.SameGeometry (bitmapClearRange s start n) := by
  induction n with
  | zero => rfl
  | succ n ih =>
      rw [bitmapClearRange]
      split
      · exact ih.trans (Pmm.sameGeometry_release _ _)
      · exact ih

/-- Clearing a range clears exactly its bits. -/
theorem used_bitmapClearRange (s : Pmm) (start f n : ℕ) :
    (bitmapClearRange s start n).used f =
      (!decide (start ≤ f ∧ f < start + n) && s.used f) := by
  induction n with
  | zero =>
      have hempty : ¬ (start ≤ f ∧ f < start + 0) := by omega
      rw [bitmapClearRange, decide_eq_false hempty, Bool.not_false, Bool.true_and]
  | succ n ih =>
      have hstep : (bitmapClearRange s start (n + 1)).used f =
          (!decide (f = start + n) && (bitmapClearRange s start n).used f) := by
        rw [bitmapClearRange]
        split
        · exact Pmm.used_release _ _ _
        · next hclear =>
          by_cases heq : f = start + n
          · subst heq
            simpa using hclear
          · simp [heq]
      rw [hstep, ih, ← Bool.and_assoc, ← Bool.not_or, ← Bool.decide_or]
      congr 3
      rw [eq_iff_iff]
      omega

/-! ## Counting clear bits -/

/-- The number of clear bits among the frames `0 … total_frames - 1`. -/
def Pmm.clearFrames (s : Pmm) : ℕ :=
  ((Finset.range s.totalFrames).filter fun f => s.used f = false).card

/-- The number of set bits among the frames `0 … total_frames - 1`. -/
def Pmm.setFrames (s : Pmm) : ℕ :=
  ((Finset.range s.totalFrames).filter fun f => s.used f = true).card

namespace Pmm

/-- A frame is clear or set. -/
theorem clearFrames_add_setFrames (s : Pmm) : s.clearFrames + s.setFrames = s.totalFrames := by
  have hsplit := Finset.card_filter_add_card_filter_not
    (s := Finset.range s.totalFrames) (fun f => s.used f = false)
  rw [Finset.card_range] at hsplit
  simpa [clearFrames, setFrames] using hsplit

theorem clearFrames_le (s : Pmm) : s.clearFrames ≤ s.totalFrames :=
  Nat.le.intro s.clearFrames_add_setFrames

/-- Setting the bit of a clear frame takes one frame off the count. -/
theorem clearFrames_of_set {t : Pmm} (htotal : t.totalFrames = s.totalFrames)
    (hused : ∀ g, t.used g = (decide (g = f) || s.used g)) (hlt : f < s.totalFrames)
    (hclear : s.used f = false) : t.clearFrames + 1 = s.clearFrames := by
  have hset : ((Finset.range t.totalFrames).filter fun g => t.used g = false) =
      ((Finset.range s.totalFrames).filter fun g => s.used g = false).erase f := by
    ext g
    simp [htotal, hused, and_left_comm]
  rw [clearFrames, hset]
  exact Finset.card_erase_add_one (by simp [hlt, hclear])

/-- Clearing the bit of a used frame adds one frame to the count. -/
theorem clearFrames_release (hlt : f < s.totalFrames) (hused : s.used f = true) :
    (s.release f).clearFrames = s.clearFrames + 1 := by
  have hset : ((Finset.range (s.release f).totalFrames).filter fun g =>
        (s.release f).used g = false) =
      insert f ((Finset.range s.totalFrames).filter fun g => s.used g = false) := by
    ext g
    have htotal : (s.release f).totalFrames = s.totalFrames := rfl
    by_cases heq : g = f
    · subst heq
      simp [htotal, hlt]
    · simp [htotal, heq]
  rw [clearFrames, hset]
  exact Finset.card_insert_of_notMem (by simp [hused])

/-- The counter is the number of clear bits plus `surplus`. -/
def Counted (s : Pmm) (surplus : ℕ) : Prop := s.freeFrames = s.clearFrames + surplus

theorem Counted.reserve (h : s.Counted k) (hlt : f < s.totalFrames) (hclear : s.used f = false) :
    (s.reserve f).Counted k := by
  have hcount := clearFrames_of_set (s := s) (t := s.reserve f) rfl (s.used_reserve f) hlt hclear
  have hfree : (s.reserve f).freeFrames =
      if 0 < s.freeFrames then s.freeFrames - 1 else s.freeFrames := rfl
  unfold Counted at h ⊢
  rw [hfree, if_pos (by omega)]
  omega

theorem Counted.release (h : s.Counted k) (hlt : f < s.totalFrames) (hused : s.used f = true)
    (hroom : s.totalFrames + k < 2 ^ 64) :
    (s.release f).Counted k := by
  have hcount := clearFrames_release hlt hused
  have hle := (s.release f).clearFrames_le
  have htotal : (s.release f).totalFrames = s.totalFrames := rfl
  have hfree : (s.release f).freeFrames = wrap64 (s.freeFrames + 1) := rfl
  unfold Counted at h ⊢
  rw [hfree, wrap64_of_lt (by omega)]
  omega

end Pmm

/-- Clearing a range counts every frame once. -/
theorem counted_bitmapClearRange {start n : ℕ} (h : s.Counted k)
    (hrange : start + n ≤ s.totalFrames) (hroom : s.totalFrames + k < 2 ^ 64) :
    (bitmapClearRange s start n).Counted k := by
  induction n with
  | zero => exact h
  | succ n ih =>
      have htotal := (bitmapClearRange_sameGeometry s start n).totalFrames
      rw [bitmapClearRange]
      split
      · next hused =>
        exact (ih (by omega)).release (by omega) hused (by omega)
      · exact ih (by omega)

/-- Taking back a range of clear frames without counting them off. -/
theorem clearFrames_bitmapSetRange (start n : ℕ) (hrange : start + n ≤ s.totalFrames)
    (hclear : ∀ f, start ≤ f → f < start + n → s.used f = false) :
    ({ s with bitmapBytes := bitmapSetRange s.bitmapBytes start n } : Pmm).clearFrames + n =
      s.clearFrames := by
  induction n with
  | zero => rfl
  | succ n ih =>
      have hprev := ih (by omega) fun f hlo hhi => hclear f hlo (by omega)
      have hstep := Pmm.clearFrames_of_set (f := start + n)
        (s := { s with bitmapBytes := bitmapSetRange s.bitmapBytes start n })
        (t := { s with bitmapBytes := bitmapSetRange s.bitmapBytes start (n + 1) }) rfl
        (fun g => bitmapTest_bitmapSet _ _ g) (by dsimp only; omega) (by
          have hbit := hclear (start + n) (by omega) (by omega)
          rw [Pmm.used] at hbit ⊢
          rw [bitmapTest_bitmapSetRange, hbit]
          simp)
      omega

/-! ## The usable memory -/

theorem releaseUsable_sameGeometry (s : Pmm) (e : LimineMemmapEntry) :
    s.SameGeometry (releaseUsable s e) := by
  unfold releaseUsable
  split_ifs
  · rfl
  · rfl
  · exact bitmapClearRange_sameGeometry _ _ _

/-- A usable entry frees the frames that lie in it. -/
theorem used_releaseUsable (h : e.base + e.length ≤ 2 ^ 52) (f : ℕ) :
    (releaseUsable s e).used f = false ↔
      (e.type = limineMemmapUsable ∧ e.ContainsFrame f) ∨ s.used f = false := by
  rw [e.containsFrame_iff h]
  unfold releaseUsable
  split_ifs with htype hempty
  · simp [htype]
  · have hnone : (e.stop - e.start) / 4096 = 0 := by omega
    have hempty : ¬ (e.start / 4096 ≤ f ∧ f < e.start / 4096 + 0) := by omega
    rw [hnone]
    simp only [hempty, and_false, false_or]
  · rw [used_bitmapClearRange, Bool.and_eq_false_iff, Bool.not_eq_false', decide_eq_true_iff]
    have htype' : e.type = limineMemmapUsable := not_not.mp htype
    simp [htype']

theorem counted_releaseUsable (hbound : e.base + e.length ≤ 2 ^ 52)
    (hlimit : e.limit ≤ s.totalFrames * 4096) (h : s.Counted k)
    (hroom : s.totalFrames + k < 2 ^ 64) :
    (releaseUsable s e).Counted k := by
  unfold releaseUsable
  split_ifs with htype hempty
  · exact h
  · exact h
  · refine counted_bitmapClearRange h ?_ hroom
    rw [e.limit_eq hbound] at hlimit
    rw [e.start_eq hbound, e.stop_eq hbound] at hempty ⊢
    omega

/-- What the loop over the memory map leaves, from any starting bitmap. -/
theorem foldl_releaseUsable (entries : List LimineMemmapEntry) (hbound : EndsBelow52 entries) :
    ∀ s : Pmm, s.SameGeometry (entries.foldl releaseUsable s) ∧
      (∀ f, (entries.foldl releaseUsable s).used f = false ↔
        InUsable entries f ∨ s.used f = false) ∧
      ((∀ e ∈ entries, e.limit ≤ s.totalFrames * 4096) → s.totalFrames < 2 ^ 64 →
        s.Counted 0 → (entries.foldl releaseUsable s).Counted 0) := by
  induction entries with
  | nil =>
      intro s
      refine ⟨Pmm.SameGeometry.refl s, fun f => ?_, fun _ _ h => h⟩
      simp [InUsable]
  | cons e rest ih =>
      intro s
      have he := hbound e mem_cons_self
      obtain ⟨hgeom, hused, hcount⟩ :=
        ih (fun e' he' => hbound e' (mem_cons_of_mem _ he')) (releaseUsable s e)
      have hstep := releaseUsable_sameGeometry s e
      rw [foldl_cons]
      refine ⟨hstep.trans hgeom, fun f => ?_, fun hlimit htotal h => ?_⟩
      · rw [hused, used_releaseUsable he]
        simp only [InUsable, exists_mem_cons_iff]
        rw [or_left_comm, or_assoc]
      · refine hcount (fun e' he' => ?_) (by rw [hstep.totalFrames]; exact htotal) ?_
        · rw [hstep.totalFrames]
          exact hlimit e' (mem_cons_of_mem _ he')
        · exact counted_releaseUsable he (hlimit e mem_cons_self) h htotal

/-! ## The place of the bitmap -/

/-- A place found for the bitmap is the start of a usable entry with room. -/
theorem findBitmapLocation_spec {size : ℕ} (h : findBitmapLocation size entries ≠ 0) :
    ∃ e ∈ entries, e.type = limineMemmapUsable ∧ e.start < e.stop ∧
      size ≤ e.stop - e.start ∧ findBitmapLocation size entries = e.start := by
  induction entries with
  | nil => exact absurd rfl h
  | cons e rest ih =>
      rw [findBitmapLocation] at h ⊢
      split_ifs at h ⊢ with htype hempty hroom
      · obtain ⟨e', he', hspec⟩ := ih h
        exact ⟨e', mem_cons_of_mem _ he', hspec⟩
      · obtain ⟨e', he', hspec⟩ := ih h
        exact ⟨e', mem_cons_of_mem _ he', hspec⟩
      · exact ⟨e, mem_cons_self, not_not.mp htype, by omega, hroom, rfl⟩
      · obtain ⟨e', he', hspec⟩ := ih h
        exact ⟨e', mem_cons_of_mem _ he', hspec⟩

/-! ## The installed bitmap -/

/-- The variables of the PMM when `pmm_init` starts to fill the bitmap. -/
def placedBitmap (entries : List LimineMemmapEntry) (offset : ℕ) : Pmm :=
  { hhdmOffset := offset
    totalFrames := totalFramesOf entries
    bitmapSize := (totalFramesOf entries + 7) / 8
    bitmapPhysical := findBitmapLocation (alignUp ((totalFramesOf entries + 7) / 8)) entries }

/-- `pmm_init` from the zeroed static variables either leaves `frame_bitmap`
`NULL`, or found both responses and a place for the bitmap. -/
theorem pmmInit_cases (boot : LimineResponse) :
    (pmmInit boot {}).frameBitmap = 0 ∨
      ∃ entries offset, boot.memmap = some entries ∧
        totalFramesOf entries ≠ 0 ∧
        findBitmapLocation (alignUp ((totalFramesOf entries + 7) / 8)) entries ≠ 0 ∧
        pmmInit boot {} = installBitmap entries (placedBitmap entries offset) := by
  obtain ⟨memmap, hhdm⟩ := boot
  cases memmap with
  | none => exact .inl rfl
  | some entries =>
      cases hhdm with
      | none => exact .inl rfl
      | some offset =>
          by_cases htotal : totalFramesOf entries = 0
          · left
            have htotal' : wrap64 (highestAddress entries + 4095) / 4096 = 0 := htotal
            simp [pmmInit, htotal']
          · have htotal' : ¬ wrap64 (highestAddress entries + 4095) / 4096 = 0 := htotal
            by_cases hplace :
                findBitmapLocation (alignUp ((totalFramesOf entries + 7) / 8)) entries = 0
            · left
              have hplace' : findBitmapLocation
                  (alignUp ((wrap64 (highestAddress entries + 4095) / 4096 + 7) / 8))
                  entries = 0 := hplace
              simp only [pmmInit, htotal', hplace', if_false, if_true]
            · refine .inr ⟨entries, offset, rfl, htotal, hplace, ?_⟩
              have hplace' : ¬ findBitmapLocation
                  (alignUp ((wrap64 (highestAddress entries + 4095) / 4096 + 7) / 8))
                  entries = 0 := hplace
              simp only [pmmInit, htotal', hplace', if_false]
              rfl

section Installed

variable {entries : List LimineMemmapEntry} (hbound : EndsBelow52 entries) (offset : ℕ)

/-- The state once the bitmap is filled: every frame used. -/
private def filledBitmap (entries : List LimineMemmapEntry) (offset : ℕ) : Pmm :=
  { placedBitmap entries offset with
    frameBitmap := wrap64 ((placedBitmap entries offset).bitmapPhysical + offset)
    bitmapBytes := fun i => if i < (totalFramesOf entries + 7) / 8 then 0xFF#8 else 0
    freeFrames := 0 }

/-- The state once usable memory has been released. -/
private def releasedBitmap (entries : List LimineMemmapEntry) (offset : ℕ) : Pmm :=
  entries.foldl releaseUsable (filledBitmap entries offset)

/-- The state once the bitmap's own frames have been taken back. -/
private def ownedBitmap (entries : List LimineMemmapEntry) (offset : ℕ) : Pmm :=
  { releasedBitmap entries offset with
    bitmapBytes := bitmapSetRange (releasedBitmap entries offset).bitmapBytes
      (releasedBitmap entries offset).bitmapFirstFrame
      (releasedBitmap entries offset).bitmapFrameCount }

private theorem installBitmap_eq :
    installBitmap entries (placedBitmap entries offset) =
      if 0 < (ownedBitmap entries offset).totalFrames ∧
          (ownedBitmap entries offset).used 0 = false
      then (ownedBitmap entries offset).reserve 0 else ownedBitmap entries offset := rfl

/-- At first every frame is in use. -/
private theorem used_filledBitmap (hf : f < totalFramesOf entries) :
    (filledBitmap entries offset).used f = true := by
  rw [Pmm.used, bitmapTest_eq_getLsbD, filledBitmap]
  dsimp only
  rw [if_pos (by omega)]
  have hk : f % 8 < 8 := Nat.mod_lt _ (by decide)
  generalize f % 8 = k at hk
  interval_cases k <;> rfl

include hbound

private theorem sameGeometry_releasedBitmap :
    (filledBitmap entries offset).SameGeometry (releasedBitmap entries offset) :=
  (foldl_releaseUsable entries hbound _).1

/-- Then the usable frames are free. -/
private theorem used_releasedBitmap (hf : f < totalFramesOf entries) :
    (releasedBitmap entries offset).used f = false ↔ InUsable entries f := by
  rw [releasedBitmap, (foldl_releaseUsable entries hbound _).2.1, used_filledBitmap offset hf]
  simp

private theorem counted_releasedBitmap : (releasedBitmap entries offset).Counted 0 := by
  have heq := totalFramesOf_eq hbound
  have hle := totalFramesOf_le hbound
  have htotal : (filledBitmap entries offset).totalFrames = totalFramesOf entries := rfl
  refine (foldl_releaseUsable entries hbound _).2.2 (fun e he => ?_) ?_ ?_
  · have hlimit := limit_le_highestAddress he
    omega
  · omega
  · have hnone : (filledBitmap entries offset).clearFrames = 0 := by
      rw [Pmm.clearFrames, Finset.card_eq_zero, Finset.filter_eq_empty_iff]
      intro f hf
      simp [used_filledBitmap offset (Finset.mem_range.mp hf)]
    rw [Pmm.Counted, hnone]
    rfl

/-- The bitmap starts at a page of a usable entry that holds all its frames. -/
private theorem bitmap_entry
    (hplace : findBitmapLocation (alignUp ((totalFramesOf entries + 7) / 8)) entries ≠ 0) :
    ∃ e ∈ entries, e.type = limineMemmapUsable ∧
      (filledBitmap entries offset).bitmapFirstFrame = e.start / 4096 ∧
      (filledBitmap entries offset).bitmapFrameCount ≤ (e.stop - e.start) / 4096 ∧
      e.start / 4096 + (e.stop - e.start) / 4096 ≤ totalFramesOf entries := by
  obtain ⟨e, he, htype, hlt, hroom, hstart⟩ := findBitmapLocation_spec hplace
  refine ⟨e, he, htype, ?_, Nat.div_le_div_right hroom, ?_⟩
  · rw [Pmm.bitmapFirstFrame, ← hstart]
    rfl
  · have hlimit := limit_le_highestAddress he
    rw [e.limit_eq (hbound e he)] at hlimit
    rw [totalFramesOf_eq hbound]
    rw [e.start_eq (hbound e he), e.stop_eq (hbound e he)] at hlt ⊢
    omega

/-- The frames chosen for the bitmap are whole pages of one usable entry. -/
private theorem inUsable_of_isBitmapFrame
    (hplace : findBitmapLocation (alignUp ((totalFramesOf entries + 7) / 8)) entries ≠ 0)
    (hf : (filledBitmap entries offset).IsBitmapFrame f) :
    f < totalFramesOf entries ∧ InUsable entries f := by
  obtain ⟨e, he, htype, hfirst, hcount, htotal⟩ := bitmap_entry hbound offset hplace
  rw [Pmm.IsBitmapFrame, hfirst] at hf
  refine ⟨by omega, e, he, htype, (e.containsFrame_iff (hbound e he) f).mpr ⟨hf.1, by omega⟩⟩

/-- Whatever holds the bitmap, it is at least one frame. -/
private theorem bitmapFrameCount_pos (htotal : totalFramesOf entries ≠ 0) :
    0 < (filledBitmap entries offset).bitmapFrameCount := by
  have hle := totalFramesOf_le hbound
  have hsize : alignUp ((totalFramesOf entries + 7) / 8) =
      ((totalFramesOf entries + 7) / 8 + 4095) / 4096 * 4096 := alignUp_eq (by omega)
  change 0 < alignUp ((totalFramesOf entries + 7) / 8) / 4096
  omega

/-- Then the bitmap takes its own frames. -/
private theorem used_ownedBitmap (hf : f < totalFramesOf entries) :
    (ownedBitmap entries offset).used f = false ↔
      InUsable entries f ∧ ¬ (filledBitmap entries offset).IsBitmapFrame f := by
  rw [Pmm.used, ownedBitmap, bitmapTest_bitmapSetRange, Bool.or_eq_false_iff,
    decide_eq_false_iff_not, and_comm]
  exact and_congr (used_releasedBitmap hbound offset hf)
    (not_congr ((sameGeometry_releasedBitmap hbound offset).isBitmapFrame_iff f))

/-- The bitmap's frames leave the set of free frames, but not the counter. -/
private theorem counted_ownedBitmap
    (hplace : findBitmapLocation (alignUp ((totalFramesOf entries + 7) / 8)) entries ≠ 0) :
    (ownedBitmap entries offset).Counted (filledBitmap entries offset).bitmapFrameCount := by
  have hgeom := sameGeometry_releasedBitmap hbound offset
  have hown := hgeom.isBitmapFrame_iff
  obtain ⟨e, -, -, hfirst, hcount, htotal⟩ := bitmap_entry hbound offset hplace
  have hframes : (releasedBitmap entries offset).bitmapFrameCount =
      (filledBitmap entries offset).bitmapFrameCount := by
    rw [Pmm.bitmapFrameCount, hgeom.bitmapSize, Pmm.bitmapFrameCount]
  have hstart : (releasedBitmap entries offset).bitmapFirstFrame =
      (filledBitmap entries offset).bitmapFirstFrame := by
    rw [Pmm.bitmapFirstFrame, hgeom.bitmapPhysical, Pmm.bitmapFirstFrame]
  have hset := clearFrames_bitmapSetRange (s := releasedBitmap entries offset)
    (releasedBitmap entries offset).bitmapFirstFrame
    (releasedBitmap entries offset).bitmapFrameCount
    (by
      rw [hgeom.totalFrames, hframes, hstart, hfirst]
      exact le_trans (Nat.add_le_add_left hcount _) htotal)
    (fun f hlo hhi => by
      obtain ⟨hlt, husable⟩ :=
        inUsable_of_isBitmapFrame hbound offset hplace ((hown f).mp ⟨hlo, hhi⟩)
      exact (used_releasedBitmap hbound offset hlt).mpr husable)
  have hzero := counted_releasedBitmap hbound offset
  unfold Pmm.Counted at hzero ⊢
  change (releasedBitmap entries offset).freeFrames = _
  rw [ownedBitmap]
  omega

end Installed

section Result

variable {boot : LimineResponse} {entries : List LimineMemmapEntry}

/-- **The state `pmm_init` leaves when it installs the bitmap**, in one place:
which frames are clear, what the counter says, and the geometry every later call
relies on. -/
theorem pmmInit_spec (hmap : boot.memmap = some entries) (hbound : EndsBelow52 entries)
    (hinstalled : (pmmInit boot {}).frameBitmap ≠ 0) :
    (pmmInit boot {}).totalFrames = totalFramesOf entries ∧
      (∀ f < totalFramesOf entries, (pmmInit boot {}).used f = false ↔
        InUsable entries f ∧ ¬ (pmmInit boot {}).IsBitmapFrame f ∧ f ≠ 0) ∧
      (∀ f, (pmmInit boot {}).IsBitmapFrame f → f < totalFramesOf entries) ∧
      0 < (pmmInit boot {}).bitmapFrameCount ∧
      (pmmInit boot {}).Counted (pmmInit boot {}).bitmapFrameCount := by
  rcases pmmInit_cases boot with hnull | ⟨entries', offset, hmap', htotal, hplace, hinit⟩
  · exact absurd hnull hinstalled
  · obtain rfl : entries = entries' := Option.some.inj (hmap.symm.trans hmap')
    have hgeom : (filledBitmap entries offset).SameGeometry (ownedBitmap entries offset) :=
      ⟨(sameGeometry_releasedBitmap hbound offset).frameBitmap,
        (sameGeometry_releasedBitmap hbound offset).totalFrames,
        (sameGeometry_releasedBitmap hbound offset).bitmapPhysical,
        (sameGeometry_releasedBitmap hbound offset).bitmapSize⟩
    have hownTotal : (ownedBitmap entries offset).totalFrames = totalFramesOf entries :=
      hgeom.totalFrames
    have hcountEq : (ownedBitmap entries offset).bitmapFrameCount =
        (filledBitmap entries offset).bitmapFrameCount := by
      rw [Pmm.bitmapFrameCount, hgeom.bitmapSize, Pmm.bitmapFrameCount]
    have hframes : ∀ f, (ownedBitmap entries offset).IsBitmapFrame f →
        f < totalFramesOf entries := fun f hf =>
      (inUsable_of_isBitmapFrame hbound offset hplace ((hgeom.isBitmapFrame_iff f).mp hf)).1
    have hpos : 0 < (ownedBitmap entries offset).bitmapFrameCount := by
      rw [hcountEq]
      exact bitmapFrameCount_pos hbound offset htotal
    have hcounted := counted_ownedBitmap hbound offset hplace
    rw [hinit, installBitmap_eq]
    split
    · next hzero =>
      refine ⟨hownTotal, fun f hf => ?_, hframes, hpos, ?_⟩
      · rw [Pmm.used_reserve, Bool.or_eq_false_iff, decide_eq_false_iff_not,
          used_ownedBitmap hbound offset hf, ← hgeom.isBitmapFrame_iff]
        exact ⟨fun h => ⟨h.2.1, h.2.2, h.1⟩, fun h => ⟨h.2.2, h.1, h.2.1⟩⟩
      · have hreserved := hcounted.reserve hzero.1 hzero.2
        rwa [← hcountEq] at hreserved
    · next hzero =>
      refine ⟨hownTotal, fun f hf => ?_, hframes, hpos, ?_⟩
      · rw [used_ownedBitmap hbound offset hf, ← hgeom.isBitmapFrame_iff]
        refine ⟨fun h => ⟨h.1, h.2, ?_⟩, fun h => ⟨h.1, h.2.1⟩⟩
        -- frame `0` was already used, so it is not among the clear frames
        rintro rfl
        refine hzero ⟨by omega, (used_ownedBitmap hbound offset hf).mpr ⟨h.1, ?_⟩⟩
        rw [← hgeom.isBitmapFrame_iff]
        exact h.2
      · rwa [hcountEq]

end Result

end Batos
