import Batos.Heap.Blocks
import Batos.Pmm.Frames

/-!
# `kmalloc` and `kfree` on the list of blocks

The heap represents a list of blocks if their headers are in the arena and the two
counters are the bytes in use and the free bytes of the list (`Heap.Represents`).

On such a heap every walk along the links comes to its end, `kmalloc` carves the first
block that fits (`kmalloc_cases`), and `kfree` gives a block back if the pointer is the
payload of a block in use, and does nothing otherwise (`kfree_cases`).
-/

namespace Batos

open List BitVec

open Block
open Function (update)

variable {o : ℕ} {arena : HeapArena} {h : Heap} {blocks : List Block} {b : Block}

/-- The heap represents the list of blocks. -/
structure Heap.Represents (arena : HeapArena) (h : Heap) (blocks : List Block) : Prop where
  linked : h.Linked arena blocks
  allocated : h.allocatedBytes = BitVec.ofNat 64 (bytes true blocks)
  free : h.freeBytes = BitVec.ofNat 64 (bytes false blocks)

/-! ## The changes with the counters -/

theorem heapState_eq_free_iff {used : Bool} : heapState used = heapBlockFree ↔ used = false := by
  cases used <;> decide

/-- What a counter loses. -/
theorem ofNat_sub_of_add {a b c : ℕ} (h : a + b = c) :
    BitVec.ofNat 64 c - BitVec.ofNat 64 b = BitVec.ofNat 64 a := by
  rw [← h, ofNat_add, BitVec.add_sub_cancel]

namespace Heap.Represents

variable {arena : HeapArena} {h : Heap} {b c : Block} {blocks pre post : List Block} {n : ℕ}

theorem split (hr : h.Represents arena (pre ++ b :: post)) (hfree : b.used = false)
    (hn : 0 < n ∧ 16 ∣ n) (hroom : n + 64 ≤ b.size) :
    (h.split (arena.address (extent 32 pre)) (BitVec.ofNat 64 n)).Represents arena
      (pre ++ ⟨n, false⟩ :: ⟨b.size - n - 32, false⟩ :: post) := by
  have hlist : pre ++ [⟨n, b.used⟩, ⟨b.size - n - 32, false⟩] ++ post =
      pre ++ ⟨n, false⟩ :: ⟨b.size - n - 32, false⟩ :: post := by
    rw [hfree, List.append_assoc]
    rfl
  refine ⟨hlist ▸ hr.linked.split hn hroom, ?_, ?_⟩
  · have hkept : (h.split (arena.address (extent 32 pre)) (BitVec.ofNat 64 n)).allocatedBytes =
        h.allocatedBytes := tellNext_allocatedBytes _
    rw [hkept, hr.allocated]
    simp [hfree]
  · have hless : (h.split (arena.address (extent 32 pre)) (BitVec.ofNat 64 n)).freeBytes =
        h.freeBytes - BitVec.ofNat 64 32 := congrArg (· - heapHeaderSize) (tellNext_freeBytes _)
    rw [hless, hr.free]
    refine ofNat_sub_of_add ?_
    simp only [bytes_append, bytes_cons, hfree, if_true]
    omega

/-- A free block is taken into use. -/
theorem occupy (hr : h.Represents arena (pre ++ b :: post)) (hfree : b.used = false) :
    (h.occupy (arena.address (extent 32 pre))).Represents arena
      (pre ++ ⟨b.size, true⟩ :: post) := by
  have hsize : (h.setState (arena.address (extent 32 pre)) heapBlockUsed).size
      (arena.address (extent 32 pre)) = BitVec.ofNat 64 b.size := by
    rw [size_setState hr.linked.offset, hr.linked.size_eq]
  refine ⟨(hr.linked.mark true).congr rfl rfl, ?_, ?_⟩
  · show h.allocatedBytes + (h.setState _ _).size _ = _
    rw [hsize, hr.allocated, ← ofNat_add]
    congr 1
    simp [hfree]
    omega
  · show h.freeBytes - (h.setState _ _).size _ = _
    rw [hsize, hr.free]
    refine ofNat_sub_of_add ?_
    simp [hfree]
    omega

/-- A block in use is given up. -/
theorem vacate (hr : h.Represents arena (pre ++ b :: post)) (hused : b.used = true) :
    (h.vacate (arena.address (extent 32 pre))).Represents arena
      (pre ++ ⟨b.size, false⟩ :: post) := by
  have hsize : (h.setState (arena.address (extent 32 pre)) heapBlockFree).size
      (arena.address (extent 32 pre)) = BitVec.ofNat 64 b.size := by
    rw [size_setState hr.linked.offset, hr.linked.size_eq]
  refine ⟨(hr.linked.mark false).congr rfl rfl, ?_, ?_⟩
  · show h.allocatedBytes - (h.setState _ _).size _ = _
    rw [hsize, hr.allocated]
    refine ofNat_sub_of_add ?_
    simp [hused]
    omega
  · show h.freeBytes + (h.setState _ _).size _ = _
    rw [hsize, hr.free, ← ofNat_add]
    congr 1
    simp [hused]
    omega

/-- Two free neighbours become one block. -/
theorem absorb (hr : h.Represents arena (pre ++ b :: c :: post)) (hb : b.used = false)
    (hc : c.used = false) :
    (h.absorb (arena.address (extent 32 pre))
      (arena.address (extent 32 pre + (32 + b.size)))).Represents arena
        (pre ++ ⟨b.size + (32 + c.size), false⟩ :: post) := by
  have hlist : pre ++ [⟨b.size + (32 + c.size), b.used⟩] ++ post =
      pre ++ ⟨b.size + (32 + c.size), false⟩ :: post := by
    rw [hb, List.append_assoc, singleton_append]
  refine ⟨hlist ▸ hr.linked.absorb, ?_, ?_⟩
  · rw [show (h.absorb _ _).allocatedBytes = h.allocatedBytes from tellNext_allocatedBytes _,
      hr.allocated]
    simp [hb, hc]
  · rw [show (h.absorb _ _).freeBytes = h.freeBytes + BitVec.ofNat 64 32 from tellNext_freeBytes _,
      hr.free, ← ofNat_add]
    congr 1
    simp [hb, hc]
    omega

theorem write (hr : h.Represents arena blocks) {x : ℕ} (hmem : (o, b) ∈ placed 32 0 blocks)
    (hx : o + 32 ≤ x ∧ x < o + (32 + b.size)) (byte : BitVec 8) :
    { h with memory := update h.memory (arena.address x) byte }.Represents arena blocks :=
  ⟨hr.linked.write hmem hx byte, hr.allocated, hr.free⟩

/-! ## The block that was found -/

theorem size_lt (hr : h.Represents arena (pre ++ b :: post)) : b.size + 32 ≤ heapArenaSize := by
  have hend := hr.linked.end_block
  omega

/-- **`kmalloc` on a block that fits** carves it. -/
theorem allocate (hr : h.Represents arena (pre ++ b :: post)) (hfits : b.Fits n)
    (hn : 0 < n ∧ 16 ∣ n) :
    ∃ h', h.allocate (arena.address (extent 32 pre)) (BitVec.ofNat 64 n) =
        (arena.address (extent 32 pre + 32), h') ∧
      h'.Represents arena (pre ++ carve 32 32 n b ++ post) := by
  have hlt := hr.size_lt
  have hlength : heapArenaSize = 65536 := rfl
  obtain ⟨hfree, hle⟩ := hfits
  have hremaining : h.size (arena.address (extent 32 pre)) - BitVec.ofNat 64 n =
      BitVec.ofNat 64 (b.size - n) := by
    rw [hr.linked.size_eq]
    exact ofNat_sub_ofNat_of_le _ _ (by omega) hle
  have hsplits : BitVec.ofNat 64 (b.size - n) ≥ heapHeaderSize + heapMinSplitSize ↔
      32 + 32 ≤ b.size - n := by
    rw [ge_iff_le, le_def, toNat_ofNat, Nat.mod_eq_of_lt (by omega)]
    rfl
  rw [Heap.allocate, hremaining, List.append_assoc, carve]
  refine ⟨_, Prod.ext (arena.address_add _ 32) rfl, ?_⟩
  by_cases hsplit : 32 + 32 ≤ b.size - n
  · rw [if_pos (hsplits.mpr hsplit), if_pos hsplit]
    exact (hr.split hfree hn (by omega)).occupy rfl
  · rw [if_neg (fun hge => hsplit (hsplits.mp hge)), if_neg hsplit]
    exact hr.occupy hfree

/-! ## The block that is given back -/

/-- The link to the block in front. -/
theorem lastAddress_concat (arena : HeapArena) (pre : List Block) (b : Block) :
    lastAddress arena 0 0 (pre ++ [b]) = arena.address (extent 32 pre) := by
  rw [lastAddress_append, Nat.zero_add]
  rfl

/-- The merge with the block behind, if that is free. -/
theorem coalesceNext (hr : h.Represents arena (pre ++ b :: post)) (hfree : b.used = false) :
    (if h.next (arena.address (extent 32 pre)) ≠ 0 ∧
        h.state (h.next (arena.address (extent 32 pre))) = heapBlockFree then
      h.absorb (arena.address (extent 32 pre)) (h.next (arena.address (extent 32 pre)))
    else h).Represents arena (pre ++ (mergeNext 32 b post).1 :: (mergeNext 32 b post).2) := by
  rw [hr.linked.next_eq]
  cases post with
  | nil =>
      rw [hr.linked.link_eq_zero_iff.mpr rfl, if_neg (by simp)]
      exact hr
  | cons c post =>
      have hnext := append_cons pre b (c :: post) ▸ hr.linked
      have hstate := hnext.state_eq
      have hoffset := hnext.offset
      rw [extent_concat] at hstate hoffset
      rw [arena.link_of_lt (by omega), hstate, mergeNext]
      cases hc : c.used with
      | true =>
          rw [if_neg (fun hmerge => absurd hmerge.2 (by decide))]
          exact hr
      | false =>
          rw [if_pos ⟨arena.address_ne_zero (by omega), rfl⟩]
          have habsorbed := hr.absorb hfree hc
          rw [← hfree] at habsorbed
          exact habsorbed

/-- The merge with the block in front, if that is free. -/
theorem coalescePrevious (hr : h.Represents arena (pre ++ b :: post)) (hfree : b.used = false) :
    (if h.previous (arena.address (extent 32 pre)) ≠ 0 ∧
        h.state (h.previous (arena.address (extent 32 pre))) = heapBlockFree then
      h.absorb (h.previous (arena.address (extent 32 pre))) (arena.address (extent 32 pre))
    else h).Represents arena
      ((mergePrevious 32 pre b).1 ++ (mergePrevious 32 pre b).2 :: post) := by
  rw [hr.linked.previous_eq]
  rcases eq_nil_or_concat' pre with rfl | ⟨front, p, rfl⟩
  · rw [lastAddress, if_neg (by simp)]
    exact hr
  · have hprevious : h.Represents arena (front ++ p :: b :: post) := by
      rw [append_cons]
      exact hr
    rw [lastAddress_concat, hprevious.linked.state_eq, mergePrevious, List.getLast?_concat]
    dsimp only
    have hoffset := hprevious.linked.offset
    cases hp : p.used with
    | true =>
        rw [if_neg (fun hmerge => absurd hmerge.2 (by decide))]
        exact hr
    | false =>
        rw [if_pos ⟨arena.address_ne_zero (by omega), rfl⟩]
        rw [if_neg (by simp), dropLast_concat, extent_concat]
        exact hprevious.absorb hp hfree

/-- **`kfree` on a block in use** gives it back. -/
theorem release (hr : h.Represents arena (pre ++ b :: post)) (hused : b.used = true) :
    (h.release (arena.address (extent 32 pre))).Represents arena (Block.release 32 pre b post) := by
  have hnext := (hr.vacate hused).coalesceNext rfl
  have hfree : (mergeNext 32 ⟨b.size, false⟩ post).1.used = false := by
    cases post with
    | nil => rfl
    | cons c post =>
        rw [mergeNext]
        split_ifs <;> rfl
  exact hnext.coalescePrevious hfree

end Heap.Represents

/-! ## The walk along the links -/

/-- The block is at the offset, and its fields are those of its header. -/
theorem Heap.Linked.fields (hl : h.Linked arena blocks) (hmem : (o, b) ∈ placed 32 0 blocks) :
    o + (32 + b.size) ≤ heapArenaSize ∧ h.size (arena.address o) = BitVec.ofNat 64 b.size ∧
      h.state (arena.address o) = heapState b.used := by
  have hbounds := (bounds_of_mem_placed hmem).2
  rw [hl.fills, Nat.zero_add] at hbounds
  obtain ⟨pre, post, rfl, rfl⟩ := split_of_mem_placed hmem
  rw [Nat.zero_add] at hbounds ⊢
  exact ⟨hbounds, hl.size_eq, hl.state_eq⟩

theorem Heap.Linked.toNat_size (hl : h.Linked arena blocks) (hmem : (o, b) ∈ placed 32 0 blocks) :
    (h.size (arena.address o)).toNat = b.size := by
  obtain ⟨hbounds, hsize, -⟩ := hl.fields hmem
  have hlength : heapArenaSize = 65536 := rfl
  rw [hsize, toNat_ofNat]
  exact Nat.mod_eq_of_lt (by omega)

/-- **The walk** stops at the first block that meets the condition, and at the end of the
list otherwise. -/
theorem Heap.Linked.walk (found : Word → Bool) {pre post : List Block}
    (hl : h.Linked arena (pre ++ post)) {bound : ℕ} (hbound : post.length < bound) :
    ((∀ o b, (o, b) ∈ placed 32 (extent 32 pre) post → found (arena.address o) = false) ∧
        h.walk found bound (arena.link (extent 32 pre)) = some 0) ∨
      ∃ front b rest, post = front ++ b :: rest ∧
        (∀ o c, (o, c) ∈ placed 32 (extent 32 pre) front → found (arena.address o) = false) ∧
        found (arena.address (extent 32 (pre ++ front))) = true ∧
        h.walk found bound (arena.link (extent 32 pre)) =
          some (arena.address (extent 32 (pre ++ front))) := by
  induction post generalizing pre bound with
  | nil =>
      obtain ⟨bound, rfl⟩ := Nat.exists_eq_succ_of_ne_zero (Nat.ne_of_gt hbound)
      have hend : extent 32 pre = heapArenaSize := by
        rw [← hl.fills, append_nil]
      left
      refine ⟨nofun, ?_⟩
      rw [hend, arena.link_end]
      rfl
  | cons b post ih =>
      obtain ⟨bound, rfl⟩ :=
        Nat.exists_eq_succ_of_ne_zero (Nat.ne_of_gt (Nat.lt_of_le_of_lt (Nat.zero_le _) hbound))
      have hoffset := hl.offset
      rw [arena.link_of_lt (by omega), Heap.walk, if_neg (arena.address_ne_zero (by omega))]
      cases hfound : found (arena.address (extent 32 pre)) with
      | true =>
          right
          refine ⟨[], b, post, rfl, nofun, ?_, ?_⟩
          · rw [append_nil]
            exact hfound
          · rw [append_nil]
            rfl
      | false =>
          rw [if_neg (by simp), hl.next_eq]
          have hrest := ih (append_cons pre b post ▸ hl) (Nat.lt_of_succ_lt_succ hbound)
          rw [extent_concat] at hrest
          rcases hrest with ⟨hnone, heq⟩ | ⟨front, c, rest, rfl, hnone, hsome, heq⟩
          · left
            refine ⟨fun o c hmem => ?_, heq⟩
            rcases mem_cons.mp hmem with hhead | hmem
            · rw [Prod.mk.injEq] at hhead
              rw [hhead.1]
              exact hfound
            · exact hnone o c hmem
          · right
            rw [← append_cons] at hsome heq
            refine ⟨b :: front, c, rest, rfl, fun o d hmem => ?_, hsome, heq⟩
            rcases mem_cons.mp hmem with hhead | hmem
            · rw [Prod.mk.injEq] at hhead
              rw [hhead.1]
              exact hfound
            · exact hnone o d hmem

/-- The arena has no room for as many blocks as the walk may visit. -/
theorem Heap.Linked.length_lt (hl : h.Linked arena blocks) : blocks.length < heapWalkBound := by
  have hlength := hl.regular.length_le 32
  have hfills := hl.fills
  rw [heapWalkBound, heapArenaSize] at *
  omega

/-- The walk from the first block on. -/
theorem Heap.Linked.walk_first (hl : h.Linked arena blocks) (found : Word → Bool) :
    ((∀ o b, (o, b) ∈ placed 32 0 blocks → found (arena.address o) = false) ∧
        h.walk found heapWalkBound h.firstBlock = some 0) ∨
      ∃ pre b post, blocks = pre ++ b :: post ∧
        (∀ o c, (o, c) ∈ placed 32 0 pre → found (arena.address o) = false) ∧
        found (arena.address (extent 32 pre)) = true ∧
        h.walk found heapWalkBound h.firstBlock = some (arena.address (extent 32 pre)) := by
  have hall : h.Linked arena ([] ++ blocks) := hl
  have hwalk := hall.walk found hl.length_lt
  rw [extent_nil, arena.link_of_lt (by decide), arena.address_zero, ← hl.first] at hwalk
  exact hwalk

/-! ## The calls -/

theorem toNat_and_not_mask (x : Word) : (x &&& ~~~(15 : Word)).toNat = x.toNat / 16 * 16 :=
  toNat_and_not_lowMask 4 x

/-- A request is rounded up to a multiple of 16, unless that overflows. -/
theorem toNat_alignUpSafe (size : Word) :
    (alignUpSafe size).toNat = if 2 ^ 64 - 16 < size.toNat then
      0 else (size.toNat + 15) / 16 * 16 := by
  have hlt := size.isLt
  have hmask : (size > -1 - (16 - 1 : Word)) ↔ 2 ^ 64 - 16 < size.toNat := by
    rw [gt_iff_lt, lt_def]
    rfl
  rw [alignUpSafe]
  by_cases hlarge : 2 ^ 64 - 16 < size.toNat
  · rw [if_pos (hmask.mpr hlarge), if_pos hlarge]
    rfl
  · rw [if_neg (fun hgt => hlarge (hmask.mp hgt)), if_neg hlarge]
    refine (toNat_and_not_mask _).trans ?_
    rw [toNat_add]
    change (size.toNat + 15) % 2 ^ 64 / 16 * 16 = _
    rw [Nat.mod_eq_of_lt (by omega)]

/-- **`heap_init`** leaves one free block. -/
theorem heapInit_represents (arena : HeapArena) (h : Heap) :
    (heapInit arena h).Represents arena [⟨65504, false⟩] := by
  have hx : 16 ∣ 0 ∧ 0 + 32 ≤ heapArenaSize := by decide
  obtain ⟨h₁, hh₁⟩ : ∃ h₁ : Heap, h₁ = { h with firstBlock := arena.base } := ⟨_, rfl⟩
  obtain ⟨h₂, hh₂⟩ : ∃ h₂ : Heap,
      h₂ = (((h₁.setSize (arena.address 0) (BitVec.ofNat 64 65504)).setState (arena.address 0)
        heapBlockFree).setPrevious (arena.address 0) 0).setNext (arena.address 0) 0 := ⟨_, rfl⟩
  have hinit : heapInit arena h =
      { h₂ with allocatedBytes := 0, freeBytes := h₂.size (arena.address 0) } := by
    rw [hh₂, arena.address_zero, hh₁]
    rfl
  have hw : h₂.words arena = update (update (update (update
      (h₁.words arena) 0 (BitVec.ofNat 64 65504)) 8 heapBlockFree) 16 0) 24 0 := by
    rw [hh₂, Heap.words_setNext hx, Heap.words_setPrevious hx, Heap.words_setState hx,
      Heap.words_setSize hx]
  have hfirst : h₂.firstBlock = arena.base := by
    rw [hh₂, hh₁]
    rfl
  have hlinked : h₂.Linked arena [⟨65504, false⟩] := by
    refine ⟨hfirst, ⟨⟨?_, ?_, ?_, ?_⟩, trivial⟩, rfl, ?_⟩
    · rw [hw]
      rfl
    · rw [hw]
      rfl
    · rw [hw]
      rfl
    · rw [hw]
      exact arena.link_end.symm
    · rw [Regular.cons]
      exact ⟨by decide, nofun⟩
  have hall : h₂.Linked arena ([] ++ [⟨65504, false⟩]) := hlinked
  rw [hinit]
  exact ⟨hlinked.congr rfl rfl, rfl, hall.size_eq⟩

section Calls

variable {arena : HeapArena} {h : Heap} {blocks : List Block}

/-- What `kmalloc` looks for. -/
theorem Heap.Linked.fits_iff (hl : h.Linked arena blocks) (hmem : (o, b) ∈ placed 32 0 blocks)
    (alignedSize : Word) :
    (h.state (arena.address o) = heapBlockFree ∧ h.size (arena.address o) ≥ alignedSize) ↔
      b.Fits alignedSize.toNat := by
  rw [(hl.fields hmem).2.2, heapState_eq_free_iff, ge_iff_le, le_def, hl.toNat_size hmem]
  rfl

theorem alignUpSafe_spec {size : Word} (hsize : size ≠ 0) (haligned : alignUpSafe size ≠ 0) :
    (0 < (alignUpSafe size).toNat ∧ 16 ∣ (alignUpSafe size).toNat) ∧
      size.toNat ≤ (alignUpSafe size).toNat := by
  have hpos : size.toNat ≠ 0 := fun hzero => hsize (eq_of_toNat_eq hzero)
  have hpos' : (alignUpSafe size).toNat ≠ 0 := fun hzero => haligned (eq_of_toNat_eq hzero)
  rw [toNat_alignUpSafe] at hpos' ⊢
  by_cases hlarge : 2 ^ 64 - 16 < size.toNat
  · exact absurd (if_pos hlarge) hpos'
  · rw [if_neg hlarge]
    exact ⟨⟨by omega, Nat.dvd_mul_left 16 _⟩, by omega⟩

variable (hr : h.Represents arena blocks)

include hr

theorem Heap.Represents.firstBlock_ne : h.firstBlock ≠ 0 := by
  rw [hr.linked.first]
  exact arena.base_ne

/-- **`kmalloc`** returns a null pointer and changes nothing, or the payload of the first
block that fits, which is carved. -/
theorem kmalloc_cases (size : Word) :
    (kmalloc h size = some (0, h) ∧
        (size = 0 ∨ alignUpSafe size = 0 ∨ ∀ b ∈ blocks, ¬ b.Fits (alignUpSafe size).toNat)) ∨
      ∃ pre b post h', blocks = pre ++ b :: post ∧ size ≠ 0 ∧ alignUpSafe size ≠ 0 ∧
        (∀ c ∈ pre, ¬ c.Fits (alignUpSafe size).toNat) ∧ b.Fits (alignUpSafe size).toNat ∧
        kmalloc h size = some (arena.address (extent 32 pre + 32), h') ∧
        h'.Represents arena (pre ++ carve 32 32 (alignUpSafe size).toNat b ++ post) := by
  unfold kmalloc
  by_cases hsize : size = 0
  · exact .inl ⟨if_pos hsize, .inl hsize⟩
  rw [if_neg hsize]
  dsimp only
  by_cases haligned : alignUpSafe size = 0
  · exact .inl ⟨if_pos haligned, .inr (.inl haligned)⟩
  rw [if_neg haligned, if_neg hr.firstBlock_ne]
  rcases hr.linked.walk_first fun block => h.state block = heapBlockFree ∧
    h.size block ≥ alignUpSafe size with
    ⟨hnone, heq⟩ | ⟨pre, b, post, rfl, hnone, hfound, heq⟩
  · left
    rw [heq]
    refine ⟨rfl, .inr (.inr fun b hb hfits => ?_)⟩
    obtain ⟨o, hmem⟩ := exists_mem_placed 32 0 hb
    exact absurd ((hr.linked.fits_iff hmem _).mpr hfits) (of_decide_eq_false (hnone o b hmem))
  · right
    have hfits := (hr.linked.fits_iff mem_placed_split _).mp (of_decide_eq_true hfound)
    obtain ⟨h', hallocate, hr'⟩ := hr.allocate hfits (alignUpSafe_spec hsize haligned).1
    rw [ofNat_toNat, setWidth_eq] at hallocate
    have hoffset := hr.linked.offset
    refine ⟨pre, b, post, h', rfl, hsize, haligned, fun c hc hcfits => ?_, hfits, ?_, hr'⟩
    · obtain ⟨o, hcmem⟩ := exists_mem_placed 32 0 hc
      have hplaced : (o, c) ∈ placed 32 0 (pre ++ b :: post) := by
        rw [placed_append]
        exact mem_append_left _ hcmem
      exact absurd ((hr.linked.fits_iff hplaced _).mpr hcfits)
        (of_decide_eq_false (hnone o c hcmem))
    · rw [heq, Option.map_some, if_neg (arena.address_ne_zero (by omega)), hallocate]

/-- **`kfree`** gives a block in use back whose payload the pointer is, and does nothing
with any other pointer. -/
theorem kfree_cases (ptr : Word) :
    (kfree arena h ptr = some h ∧
        ∀ o b, (o, b) ∈ inUse 32 0 blocks → arena.address (o + 32) ≠ ptr) ∨
      ∃ pre b post h', blocks = pre ++ b :: post ∧ b.used = true ∧
        ptr = arena.address (extent 32 pre + 32) ∧ kfree arena h ptr = some h' ∧
        h'.Represents arena (Block.release 32 pre b post) := by
  have hbound : ∀ o b, (o, b) ∈ placed 32 0 blocks → o + 32 ≤ heapArenaSize := by
    intro o b hmem
    have hfields := (hr.linked.fields hmem).1
    omega
  have hpayload : ∀ o, blockPayload (arena.address o) = arena.address (o + 32) :=
    fun o => arena.address_add o 32
  unfold kfree
  by_cases hnull : ptr = 0
  · refine .inl ⟨if_pos hnull, fun o b hmem => ?_⟩
    rw [hnull]
    exact arena.address_ne_zero (hbound o b (mem_inUse.mp hmem).1)
  rw [if_neg hnull, if_neg hr.firstBlock_ne]
  rcases hr.linked.walk_first fun block => blockPayload block = ptr with
    ⟨hnone, heq⟩ | ⟨pre, b, post, rfl, hnone, hfound, heq⟩
  · left
    rw [heq]
    refine ⟨rfl, fun o b hmem => ?_⟩
    rw [← hpayload]
    exact of_decide_eq_false (hnone o b (mem_inUse.mp hmem).1)
  have hptr : arena.address (extent 32 pre + 32) = ptr := by
    rw [← hpayload]
    exact of_decide_eq_true hfound
  have hmem : (extent 32 pre, b) ∈ placed 32 0 (pre ++ b :: post) := mem_placed_split
  obtain ⟨hfits, hsize, hstate⟩ := hr.linked.fields hmem
  rw [heq, Option.map_some]
  dsimp only
  rw [if_neg (arena.address_ne_zero (by omega)), hstate]
  cases hused : b.used with
  | false =>
      left
      rw [if_pos (by decide)]
      refine ⟨rfl, fun o c hc hpayload' => ?_⟩
      obtain ⟨hplaced, hcused⟩ := mem_inUse.mp hc
      have ho : o = extent 32 pre := by
        have haddress := arena.address_inj (hbound o c hplaced) (hbound _ b hmem)
          (hpayload'.trans hptr.symm)
        omega
      rcases apart_of_mem_placed hplaced hmem with ⟨-, rfl⟩ | hbefore | hbehind
      · rw [hused] at hcused
        cases hcused
      · omega
      · omega
  | true =>
      right
      refine ⟨pre, b, post, _, rfl, hused, hptr.symm, ?_, hr.release hused⟩
      rw [if_neg (by decide)]
      -- none of the range checks rejects a block of the list
      have hlength : heapArenaSize = 65536 := rfl
      have harena := arena.fits
      have hpos := hr.linked.size_block.1
      have hblock := arena.toNat_address (x := extent 32 pre) (by omega)
      have hstart := arena.toNat_address (x := extent 32 pre + 32) (by omega)
      have hend : (arena.base + BitVec.ofNat 64 heapArenaSize).toNat =
        arena.base.toNat + heapArenaSize :=
        arena.toNat_address (Nat.le_refl _)
      have hsize' : (BitVec.ofNat 64 b.size).toNat = b.size := by
        rw [toNat_ofNat]
        exact Nat.mod_eq_of_lt (by omega)
      have hlimit : (-1 - BitVec.ofNat 64 heapArenaSize : Word).toNat = 2 ^ 64 - 1 - 65536 := rfl
      have hmax : (BitVec.ofNat 64 heapArenaSize - heapHeaderSize).toNat = 65504 := rfl
      have hspace : (arena.base + BitVec.ofNat 64 heapArenaSize - arena.address
        (extent 32 pre + 32)).toNat =
          heapArenaSize - (extent 32 pre + 32) := by
        rw [toNat_sub, hend, hstart]
        omega
      rw [hsize, hpayload, if_neg, if_neg, if_neg, if_neg, if_neg]
      · rw [gt_iff_lt, gt_iff_lt, lt_def, lt_def, hend, hstart, hsize', hspace]
        omega
      · rw [gt_iff_lt, lt_def, hmax, hsize']
        omega
      · intro hzero
        rw [hzero] at hsize'
        change 0 = _ at hsize'
        omega
      · rw [ge_iff_le, lt_def, le_def, hend, hblock]
        omega
      · rw [gt_iff_lt, lt_def, hlimit]
        omega

end Calls

end Batos
