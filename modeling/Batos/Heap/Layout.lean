import Batos.Heap.Run

/-!
# The heap as its headers show it

What `Heap.Represents` says in terms of a list of blocks, read off the headers: the list one
gets by following `next` from `heap_first_block` on (`Heap.blockList`).

* The headers tile the arena, they are linked in both directions, and the counters are the
  sums of the sizes (`heap_well_formed`).
* `kmalloc` takes the lowest block that fits, and fails only when nothing does
  (`kmalloc_first_fit`).
* `kfree` acts on the payloads of the blocks in use, and on nothing else (`kfree_exact`).
* The blocks in use determine all headers, whatever calls have led there
  (`heap_history_independent`).

All of them hold in every state of every run, whatever the clients write to their payloads.
-/

namespace Batos

open List

open Block

variable {o : ℕ} {b : Block} {a size : Word} {pre post : List Block} {h : Heap}

/-! ## Reading the headers -/

namespace Heap

/-- The blocks one finds by following `next`, as far as a walk goes. -/
def follow (h : Heap) : ℕ → Word → List Word
  | 0, _ => []
  | bound + 1, block => if block = 0 then [] else block :: h.follow bound (h.next block)

/-- The blocks from `heap_first_block` on. -/
def blockList (h : Heap) : List Word := h.follow heapWalkBound h.firstBlock

/-- What the header says about a block. -/
def block (h : Heap) (a : Word) : Block := ⟨(h.size a).toNat, h.state a == heapBlockUsed⟩

/-- The blocks in use. -/
def usedBlocks (h : Heap) : List Word := h.blockList.filter fun a => h.state a == heapBlockUsed

/-- The headers of blocks that follow each other from an address on, up to the end of the
arena: each starts where the one in front ends, and the links agree. -/
def Tiles (arena : HeapArena) (h : Heap) : Word → ℕ → List Word → Prop
  | _, start, [] => start = arena.base.toNat + heapArenaSize
  | previous, start, a :: rest =>
      a.toNat = start ∧ h.previous a = previous ∧ h.next a = rest.headD 0 ∧
        h.Tiles arena a (start + (32 + (h.size a).toNat)) rest

/-- The representation invariant. -/
structure WellFormed (arena : HeapArena) (h : Heap) : Prop where
  first : h.blockList.head? = some h.firstBlock
  tiles : h.Tiles arena 0 arena.base.toNat h.blockList
  sizes : ∀ a ∈ h.blockList, 0 < (h.size a).toNat ∧ 16 ∣ (h.size a).toNat
  states : ∀ a ∈ h.blockList, h.state a = heapBlockFree ∨ h.state a = heapBlockUsed
  separated : h.blockList.IsChain fun a c =>
    ¬ (h.state a = heapBlockFree ∧ h.state c = heapBlockFree)
  allocated : h.allocatedBytes.toNat =
    ((h.blockList.filter fun a => h.state a == heapBlockUsed).map fun a => (h.size a).toNat).sum
  free : h.freeBytes.toNat =
    ((h.blockList.filter fun a => h.state a == heapBlockFree).map fun a => (h.size a).toNat).sum

end Heap

/-- The addresses of blocks that are placed in the arena. -/
def HeapArena.addresses (arena : HeapArena) (places : List (ℕ × Block)) : List Word :=
  places.map fun place => arena.address place.1

theorem map_snd_placed (hdr start : ℕ) (blocks : List Block) :
    (placed hdr start blocks).map Prod.snd = blocks := by
  induction blocks generalizing start with
  | nil => rfl
  | cons b blocks ih => rw [placed, map_cons, ih]

section Reading

variable {arena : HeapArena} {h h' : Heap} {blocks pre post : List Block}

/-- Following the links leads along the blocks. -/
theorem Heap.Linked.follow (hl : h.Linked arena (pre ++ post)) {bound : ℕ}
    (hbound : post.length < bound) :
    h.follow bound (arena.link (extent 32 pre)) = arena.addresses
      (placed 32 (extent 32 pre) post) := by
  induction post generalizing pre bound with
  | nil =>
      obtain ⟨bound, rfl⟩ := Nat.exists_eq_succ_of_ne_zero (Nat.ne_of_gt hbound)
      have hend : extent 32 pre = heapArenaSize := by
        rw [← hl.fills, append_nil]
      rw [hend, arena.link_end]
      rfl
  | cons b post ih =>
      obtain ⟨bound, rfl⟩ :=
        Nat.exists_eq_succ_of_ne_zero (Nat.ne_of_gt (Nat.lt_of_le_of_lt (Nat.zero_le _) hbound))
      have hoffset := hl.offset
      have hrest := ih (append_cons pre b post ▸ hl) (Nat.lt_of_succ_lt_succ hbound)
      rw [extent_concat] at hrest
      rw [arena.link_of_lt (by omega), Heap.follow, if_neg (arena.address_ne_zero
        (by omega)), hl.next_eq, hrest]
      rfl

theorem Heap.Linked.blockList_eq (hl : h.Linked arena blocks) :
    h.blockList = arena.addresses (placed 32 0 blocks) := by
  have hall : h.Linked arena ([] ++ blocks) := hl
  have hfollow := hall.follow hl.length_lt
  rw [extent_nil, arena.link_of_lt (by decide), arena.address_zero, ← hl.first] at hfollow
  exact hfollow

/-- The header of a block says what the block is. -/
theorem Heap.Linked.block_eq (hl : h.Linked arena blocks) (hmem : (o, b) ∈ placed 32 0 blocks) :
    h.block (arena.address o) = b := by
  rw [Heap.block, hl.toNat_size hmem, (hl.fields hmem).2.2]
  obtain ⟨size, used⟩ := b
  cases used <;> rfl

/-- The headers show the list of blocks. -/
theorem Heap.Linked.map_block (hl : h.Linked arena blocks) : h.blockList.map h.block = blocks := by
  rw [hl.blockList_eq, HeapArena.addresses, map_map]
  refine Eq.trans (map_congr_left ?_) (map_snd_placed 32 0 blocks)
  rintro ⟨o, b⟩ hmem
  exact hl.block_eq hmem

theorem Heap.Linked.usedBlocks_eq (hl : h.Linked arena blocks) :
    h.usedBlocks = arena.addresses (inUse 32 0 blocks) := by
  rw [Heap.usedBlocks, hl.blockList_eq, HeapArena.addresses, filter_map, inUse]
  refine congrArg _ (filter_congr ?_)
  rintro ⟨o, b⟩ hmem
  exact congrArg Block.used (hl.block_eq hmem)

/-- The headers tile the arena. -/
theorem Heap.Linked.tiles (hl : h.Linked arena (pre ++ post)) :
    h.Tiles arena (lastAddress arena 0 0 pre) (arena.base.toNat + extent 32 pre)
      (arena.addresses (placed 32 (extent 32 pre) post)) := by
  induction post generalizing pre with
  | nil =>
      show _ = _
      rw [← hl.fills, append_nil]
  | cons b post ih =>
      have hoffset := hl.offset
      have hlist := append_cons pre b post
      have hrest := ih (hlist ▸ hl)
      rw [extent_concat, Heap.Represents.lastAddress_concat, ← Nat.add_assoc] at hrest
      refine ⟨arena.toNat_address (by omega), hl.previous_eq, ?_, ?_⟩
      · rw [hl.next_eq]
        cases post with
        | nil => exact hl.link_eq_zero_iff.mpr rfl
        | cons c post =>
            have hnext := (hlist ▸ hl : h.Linked arena ((pre ++ [b]) ++ c :: post)).offset
            rw [extent_concat] at hnext
            exact arena.link_of_lt (by omega)
      · rw [hl.toNat_size mem_placed_split]
        exact hrest

/-- What the header of a block says, word by word. -/
theorem Heap.Linked.same_header (hl : h.Linked arena blocks) {blocks' : List Block}
    (hl' : h'.Linked arena blocks') (hmem : (o, b) ∈ placed 32 0 blocks)
    (hmem' : (o, b) ∈ placed 32 0 blocks') :
    h'.size (arena.address o) = h.size (arena.address o) ∧
      h'.state (arena.address o) = h.state (arena.address o) := by
  obtain ⟨-, hsize, hstate⟩ := hl.fields hmem
  obtain ⟨-, hsize', hstate'⟩ := hl'.fields hmem'
  exact ⟨hsize'.trans hsize.symm, hstate'.trans hstate.symm⟩

end Reading

/-! ## The representation invariant -/

section Sums

variable {α : Type*}

/-- A sum over the elements that meet a condition. -/
theorem sum_map_ite (p : α → Bool) (f : α → ℕ) (l : List α) :
    (l.map fun a => if p a = true then f a else 0).sum = ((l.filter p).map f).sum := by
  induction l with
  | nil => rfl
  | cons a l ih =>
      rw [map_cons, sum_cons, ih, filter_cons]
      split_ifs
      · rw [map_cons, sum_cons]
      · exact Nat.zero_add _

end Sums

section Invariant

variable {arena : HeapArena} {h : Heap} {blocks : List Block}

theorem Heap.Linked.state_of_mem (hl : h.Linked arena blocks) (ha : a ∈ h.blockList) :
    h.state a = heapBlockFree ∨ h.state a = heapBlockUsed := by
  rw [hl.blockList_eq] at ha
  obtain ⟨⟨o, b⟩, hmem, rfl⟩ := mem_map.mp ha
  rw [(hl.fields hmem).2.2]
  cases b.used
  · exact .inl rfl
  · exact .inr rfl

/-- The bytes of the blocks in one state, as the headers show them. -/
theorem Heap.Linked.bytes_eq (hl : h.Linked arena blocks) (used : Bool) :
    bytes used blocks =
      ((h.blockList.filter fun a => h.state a == heapState used).map fun a =>
      (h.size a).toNat).sum := by
  rw [← sum_map_ite, ← hl.map_block, bytes, map_map]
  refine congrArg List.sum (map_congr_left fun a ha => ?_)
  have hstate : ((h.state a == heapBlockUsed) = used) ↔ (h.state a == heapState used) = true := by
    rcases hl.state_of_mem ha with hfree | hused
    · rw [hfree]
      cases used <;> decide
    · rw [hused]
      cases used <;> decide
  exact if_congr hstate rfl rfl

/-- What represents blocks is well formed. -/
theorem Heap.Represents.wellFormed (hr : h.Represents arena blocks) (hsep : Separated blocks) :
    h.WellFormed arena := by
  have hl := hr.linked
  have hbytes : ∀ used, (BitVec.ofNat 64 (bytes used blocks)).toNat = bytes used blocks := by
    intro used
    have hle := bytes_le_extent 32 used blocks
    rw [hl.fills, heapArenaSize] at hle
    rw [BitVec.toNat_ofNat]
    exact Nat.mod_eq_of_lt (by omega)
  refine ⟨?_, ?_, fun a ha => ?_, fun a ha => hl.state_of_mem ha, ?_, ?_, ?_⟩
  · have hne : blocks ≠ [] := by
      rintro rfl
      cases hl.fills
    obtain ⟨b, rest, rfl⟩ := exists_cons_of_ne_nil hne
    rw [hl.blockList_eq, hl.first, ← arena.address_zero]
    rfl
  · have hall : h.Linked arena ([] ++ blocks) := hl
    rw [hl.blockList_eq]
    exact hall.tiles
  · have hmem := mem_map_of_mem (f := h.block) ha
    rw [hl.map_block] at hmem
    exact hl.regular _ hmem
  · rw [← hl.map_block, Separated, isChain_map] at hsep
    refine hsep.imp fun a c hused hboth => ?_
    simp only [Heap.block, hboth.1, hboth.2] at hused
    exact absurd hused (by decide)
  · rw [hr.allocated, hbytes, hl.bytes_eq]
    rfl
  · rw [hr.free, hbytes, hl.bytes_eq]
    rfl

end Invariant

/-- **The representation invariant** holds in every state of every run. -/
theorem heap_well_formed (arena : HeapArena) (h : Heap) {y : HeapRun}
    (hy : (heapSystem arena).Reachable (HeapRun.boot arena h) y) : y.heap.WellFormed arena := by
  obtain ⟨blocks, hinv⟩ := heapRun_inv hy
  exact hinv.represents.wellFormed hinv.separated

theorem heap_well_formed_demo :
    ((heapSystem demoArena).run (.boot demoArena demoHeap)
      [.kmalloc 40, .kmalloc 100, .kfree 0x100020]).heap.WellFormed demoArena :=
  heap_well_formed demoArena demoHeap
    ⟨[.kmalloc 40, .kmalloc 100, .kfree 0x100020], ⟨trivial, trivial, trivial, trivial⟩, rfl⟩

/-! ## First fit -/

/-- A request, rounded up to a multiple of 16. -/
def roundedSize (size : Word) : ℕ := (size.toNat + 15) / 16 * 16

/-- The block is free and long enough for the request. -/
def Heap.Serves (h : Heap) (size a : Word) : Prop :=
  h.state a = heapBlockFree ∧ roundedSize size ≤ (h.size a).toNat

/-- A block has been taken for the request: the lowest one that serves it.  The others keep
their places, sizes and states, and if the block has been split there is a free one more. -/
structure Heap.Grabs (h : Heap) (size : Word) (h' : Heap) (pre : List Word) (a : Word)
    (post : List Word) : Prop where
  list : h.blockList = pre ++ a :: post
  lowest : ∀ c ∈ h.blockList, h.Serves size c → a.toNat ≤ c.toNat
  serves : h.Serves size a
  used : h'.state a = heapBlockUsed ∧ roundedSize size ≤ (h'.size a).toNat
  list' : h'.blockList = pre ++ a :: post ∨
    ∃ rest, h'.blockList = pre ++ a :: rest :: post ∧ h'.state rest = heapBlockFree
  others : ∀ c ∈ pre ++ post, h'.size c = h.size c ∧ h'.state c = h.state c

section FirstFit

variable {arena : HeapArena} {h : Heap} {blocks : List Block}

theorem toNat_alignUpSafe_eq (haligned : alignUpSafe size ≠ 0) :
    (alignUpSafe size).toNat = roundedSize size ∧ roundedSize size < 2 ^ 64 := by
  have hval := toNat_alignUpSafe size
  have hlt := size.isLt
  have hpos : (alignUpSafe size).toNat ≠ 0 := fun hzero => haligned (BitVec.eq_of_toNat_eq hzero)
  unfold roundedSize
  split_ifs at hval
  · exact absurd hval hpos
  · exact ⟨hval, by omega⟩

theorem alignUpSafe_eq_zero (hsize : size ≠ 0) (haligned : alignUpSafe size = 0) :
    2 ^ 64 ≤ roundedSize size := by
  have hval := toNat_alignUpSafe size
  have hpos : size.toNat ≠ 0 := fun hzero => hsize (BitVec.eq_of_toNat_eq hzero)
  rw [haligned] at hval
  change 0 = _ at hval
  unfold roundedSize
  split_ifs at hval <;> omega

/-- Where a block fits, the header shows that it does. -/
theorem Heap.Linked.serves_iff (hl : h.Linked arena blocks) (haligned : alignUpSafe size ≠ 0)
    (hmem : (o, b) ∈ placed 32 0 blocks) :
    h.Serves size (arena.address o) ↔ b.Fits (alignUpSafe size).toNat := by
  rw [← hl.fits_iff hmem, Heap.Serves, ge_iff_le, BitVec.le_def, (toNat_alignUpSafe_eq haligned).1]

theorem mem_freeExtents (hsep : Separated blocks) {e : ℕ} :
    e ∈ freeExtents 32 none blocks ↔ ∃ b ∈ blocks, b.used = false ∧ b.size = e := by
  rw [freeExtents_eq 32 hsep, mem_map]
  simp only [mem_filter, Bool.not_eq_true', and_assoc]

/-- The lists of addresses before and behind a block. -/
theorem HeapArena.addresses_split (arena : HeapArena) (pre : List Block) (b : Block)
    (post : List Block) :
    arena.addresses (placed 32 0 (pre ++ b :: post)) = arena.addresses (placed 32 0 pre) ++
      arena.address (extent 32 pre) ::
        arena.addresses (placed 32 (extent 32 pre + (32 + b.size)) post) := by
  rw [placed_append, Nat.zero_add, addresses, map_append]
  rfl

/-- **`kmalloc` takes the lowest block that fits.** -/
theorem Heap.Represents.grabs {h' : Heap} (hr : h.Represents arena (pre ++ b :: post))
    (haligned : alignUpSafe size ≠ 0) (hfirst : ∀ c ∈ pre, ¬ c.Fits (alignUpSafe size).toNat)
    (hfits : b.Fits (alignUpSafe size).toNat)
    (hr' : h'.Represents arena (pre ++ carve 32 32 (alignUpSafe size).toNat b ++ post)) :
    h.Grabs size h' (arena.addresses (placed 32 0 pre)) (arena.address (extent 32 pre))
      (arena.addresses (placed 32 (extent 32 pre + (32 + b.size)) post)) := by
  have hl := hr.linked
  have hl' := hr'.linked
  have hrounded := (toNat_alignUpSafe_eq haligned).1
  -- what becomes of the block itself, and what lies before and behind it
  have hcarved : ∃ granted rest, carve 32 32 (alignUpSafe size).toNat b = ⟨granted, true⟩ :: rest ∧
      (alignUpSafe size).toNat ≤ granted ∧ 32 + granted + extent 32 rest = 32 + b.size ∧
      (rest = [] ∨ ∃ n, rest = [⟨n, false⟩]) := by
    obtain ⟨-, hle⟩ := hfits
    rw [carve]
    split_ifs with hsplit
    · refine ⟨_, _, rfl, Nat.le_refl _, ?_, .inr ⟨_, rfl⟩⟩
      rw [extent_cons, extent_nil]
      dsimp only
      omega
    · exact ⟨_, _, rfl, hle, rfl, .inl rfl⟩
  obtain ⟨granted, rest, hcarve, hgranted, hextent, hrest⟩ := hcarved
  rw [hcarve, append_assoc, cons_append] at hl'
  have hend : extent 32 pre + (32 + granted) + extent 32 rest = extent 32 pre + (32 + b.size) := by
    omega
  have hbehind : placed 32 (extent 32 pre + (32 + granted)) (rest ++ post) =
      placed 32 (extent 32 pre + (32 + granted)) rest ++ placed 32 (extent 32 pre + (32 + b.size))
      post := by
    rw [placed_append, hend]
  have hpost : ∀ place ∈ placed 32 (extent 32 pre + (32 + b.size)) post,
      place ∈ placed 32 0 (pre ++ b :: post) := by
    intro place hplace
    rw [placed_append, Nat.zero_add]
    exact mem_append_right _ (mem_cons_of_mem _ hplace)
  have hpost' : ∀ place ∈ placed 32 (extent 32 pre + (32 + b.size)) post,
      place ∈ placed 32 0 (pre ++ ⟨granted, true⟩ :: (rest ++ post)) := by
    intro place hplace
    rw [placed_append, Nat.zero_add]
    refine mem_append_right _ (mem_cons_of_mem _ ?_)
    rw [hbehind]
    exact mem_append_right _ hplace
  refine
    { list := by rw [hl.blockList_eq, arena.addresses_split]
      lowest := fun c hc hserves => ?_
      serves := (hl.serves_iff haligned mem_placed_split).mpr hfits
      used := ?_
      list' := ?_
      others := fun c hc => ?_ }
  · rw [hl.blockList_eq] at hc
    obtain ⟨⟨o, d⟩, hmem, rfl⟩ := mem_map.mp hc
    have hfields := (hl.fields hmem).1
    have hoffset := hl.offset
    have hd := (hl.serves_iff haligned hmem).mp hserves
    dsimp only
    rw [arena.toNat_address (by omega), arena.toNat_address (by omega)]
    rw [placed_append, Nat.zero_add, mem_append] at hmem
    rcases hmem with hfront | hbehind
    · refine absurd hd (hfirst d ?_)
      rw [← map_snd_placed 32 0 pre]
      exact mem_map_of_mem hfront
    · have hbounds := (bounds_of_mem_placed hbehind).1
      omega
  · refine ⟨hl'.state_eq, ?_⟩
    rw [← hrounded, hl'.toNat_size mem_placed_split]
    exact hgranted
  · rw [hl'.blockList_eq, arena.addresses_split]
    dsimp only
    rw [hbehind]
    rcases hrest with rfl | ⟨n, rfl⟩
    · exact .inl rfl
    · refine .inr ⟨arena.address (extent 32 pre + (32 + granted)), rfl, ?_⟩
      refine (hl'.fields (b := ⟨n, false⟩) ?_).2.2
      rw [placed_append, Nat.zero_add]
      refine mem_append_right _ (mem_cons_of_mem _ ?_)
      rw [hbehind]
      exact mem_append_left _ mem_cons_self
  · rcases mem_append.mp hc with hc | hc
    · obtain ⟨⟨o, d⟩, hmem, rfl⟩ := mem_map.mp hc
      refine hl.same_header hl' (b := d) ?_ ?_
      · rw [placed_append]
        exact mem_append_left _ hmem
      · rw [placed_append]
        exact mem_append_left _ hmem
    · obtain ⟨⟨o, d⟩, hmem, rfl⟩ := mem_map.mp hc
      exact hl.same_header hl' (hpost _ hmem) (hpost' _ hmem)

end FirstFit

/-- **`kmalloc` is first-fit and fails only when it must.**  In every state of every run and for
every size the call returns.  It returns a null pointer exactly if the size is 0, rounding it
overflows, or no free extent holds it, with all neighbouring free space merged; then the heap
is unchanged.  Otherwise it returns the payload of the lowest block that serves the request. -/
theorem kmalloc_first_fit (arena : HeapArena) (h : Heap) {y : HeapRun}
    (hy : (heapSystem arena).Reachable (HeapRun.boot arena h) y) (size : Word) :
    ∃ ptr h', kmalloc y.heap size = some (ptr, h') ∧
      (ptr = 0 ↔ size = 0 ∨ 2 ^ 64 ≤ roundedSize size ∨
        ∀ e ∈ freeExtents 32 none (y.heap.blockList.map y.heap.block), e < roundedSize size) ∧
      (ptr = 0 → h' = y.heap) ∧
      (ptr ≠ 0 → ∃ pre a post, ptr = blockPayload a ∧ y.heap.Grabs size h' pre a post) := by
  obtain ⟨blocks, hinv⟩ := heapRun_inv hy
  have hr := hinv.represents
  rw [hr.linked.map_block]
  rcases kmalloc_cases hr size with
    ⟨heq, hreason⟩ | ⟨pre, b, post, h', rfl, hsize, haligned, hfirst, hfits, heq, hr'⟩
  · refine ⟨0, y.heap, heq, iff_of_true rfl ?_, fun _ => rfl, fun hne => absurd rfl hne⟩
    by_cases hsize : size = 0
    · exact .inl hsize
    by_cases haligned : alignUpSafe size = 0
    · exact .inr (.inl (alignUpSafe_eq_zero hsize haligned))
    · have hnone := (hreason.resolve_left hsize).resolve_left haligned
      refine .inr (.inr fun e he => ?_)
      obtain ⟨b, hb, hfree, rfl⟩ := (mem_freeExtents hinv.separated).mp he
      rw [← (toNat_alignUpSafe_eq haligned).1]
      exact not_le.mp fun hle => hnone b hb ⟨hfree, hle⟩
  · obtain ⟨hrounded, hlt⟩ := toNat_alignUpSafe_eq haligned
    have hoffset := hr.linked.offset
    have hne : arena.address (extent 32 pre + 32) ≠ 0 := arena.address_ne_zero (by omega)
    refine ⟨_, h', heq, iff_of_false hne ?_, fun hzero => absurd hzero hne, fun _ => ?_⟩
    · rintro (hzero | hoverflow | hnone)
      · exact hsize hzero
      · omega
      · have hmem : b.size ∈ freeExtents 32 none (pre ++ b :: post) :=
          (mem_freeExtents hinv.separated).mpr ⟨b, by simp, hfits.1, rfl⟩
        have hlarge := hfits.2
        rw [hrounded] at hlarge
        exact absurd (hnone b.size hmem) (not_lt.mpr hlarge)
    · exact ⟨_, _, _, (arena.address_add _ 32).symm, hr.grabs haligned hfirst hfits hr'⟩

/-- The gap that the first allocation has left is taken again. -/
theorem kmalloc_first_fit_demo :
    ∃ h' pre a post, kmalloc ((heapSystem demoArena).run (.boot demoArena demoHeap)
        [.kmalloc 40, .kmalloc 100, .kfree 0x100020]).heap 33 = some (0x100020, h') ∧
      0x100020 = blockPayload a ∧ ((heapSystem demoArena).run (.boot demoArena demoHeap)
        [.kmalloc 40, .kmalloc 100, .kfree 0x100020]).heap.Grabs 33 h' pre a post := by
  have hreach : (heapSystem demoArena).Reachable (.boot demoArena demoHeap)
      ((heapSystem demoArena).run (.boot demoArena demoHeap) [.kmalloc 40, .kmalloc 100,
      .kfree 0x100020]) :=
    ⟨[.kmalloc 40, .kmalloc 100, .kfree 0x100020], ⟨trivial, trivial, trivial, trivial⟩, rfl⟩
  obtain ⟨ptr, h', heq, -, -, hgrabs⟩ := kmalloc_first_fit demoArena demoHeap hreach 33
  have hptr : (kmalloc ((heapSystem demoArena).run (.boot demoArena demoHeap)
      [.kmalloc 40, .kmalloc 100, .kfree 0x100020]).heap 33).map Prod.fst = some 0x100020 := by
    decide +kernel
  rw [heq] at hptr
  obtain rfl : ptr = 0x100020 := Option.some.inj hptr
  obtain ⟨pre, a, post, hpayload, hgrab⟩ := hgrabs (by decide)
  exact ⟨h', pre, a, post, heq, hpayload, hgrab⟩

/-! ## Release -/

/-- The block is free again, and the other blocks in use are as they were. -/
structure Heap.Releases (arena : HeapArena) (h : Heap) (a : Word) (h' : Heap) : Prop where
  wellFormed : h'.WellFormed arena
  used : h'.usedBlocks = h.usedBlocks.erase a
  gone : a ∉ h'.usedBlocks
  sizes : ∀ c ∈ h'.usedBlocks, h'.size c = h.size c
  allocated : h'.allocatedBytes.toNat + (h.size a).toNat = h.allocatedBytes.toNat

section Release

variable {arena : HeapArena} {h h' : Heap} {blocks : List Block}

/-- If a block leaves the list of those in use, the counter goes down by its size. -/
theorem Heap.WellFormed.releases (hw : h.WellFormed arena) (hw' : h'.WellFormed arena)
    (ha : a ∈ h.usedBlocks) (hused : h'.usedBlocks = h.usedBlocks.erase a)
    (hgone : a ∉ h'.usedBlocks) (hsizes : ∀ c ∈ h'.usedBlocks, h'.size c = h.size c) :
    h.Releases arena a h' := by
  refine ⟨hw', hused, hgone, hsizes, ?_⟩
  have hallocated : h.allocatedBytes.toNat = (h.usedBlocks.map fun c => (h.size c).toNat).sum :=
    hw.allocated
  have hallocated' : h'.allocatedBytes.toNat =
      (h'.usedBlocks.map fun c => (h'.size c).toNat).sum := hw'.allocated
  have hsame : (h'.usedBlocks.map fun c => (h'.size c).toNat) =
      (h.usedBlocks.erase a).map fun c => (h.size c).toNat := by
    rw [← hused]
    exact map_congr_left fun c hc => congrArg BitVec.toNat (hsizes c hc)
  rw [hallocated', hallocated, hsame, Nat.add_comm]
  exact sum_map_erase (fun c => (h.size c).toNat) ha

/-- A block that is given back disappears from the list of those in use. -/
theorem Heap.Represents.releases (hr : h.Represents arena (pre ++ b :: post))
    (hsep : Separated (pre ++ b :: post)) (hb : b.used = true)
    (hr' : h'.Represents arena (Block.release 32 pre b post)) :
    h.Releases arena (arena.address (extent 32 pre)) h' := by
  obtain ⟨hsep', hinUse'⟩ := release_spec 32 hsep
  have hused : h.usedBlocks = arena.addresses (inUse 32 0 pre) ++ arena.address (extent 32 pre) ::
      arena.addresses (inUse 32 (extent 32 pre + (32 + b.size)) post) := by
    rw [hr.linked.usedBlocks_eq, inUse_split_of_used hb, HeapArena.addresses, map_append]
    rfl
  have hused' : h'.usedBlocks = arena.addresses (inUse 32 0 pre) ++
      arena.addresses (inUse 32 (extent 32 pre + (32 + b.size)) post) := by
    rw [hr'.linked.usedBlocks_eq, hinUse', HeapArena.addresses, map_append]
    rfl
  -- every other block in use starts below the block or behind its end
  have hend := hr.linked.end_block
  have hfront : arena.address (extent 32 pre) ∉ arena.addresses (inUse 32 0 pre) := by
    intro hmem
    obtain ⟨⟨o, c⟩, hc, heq⟩ := mem_map.mp hmem
    have hbounds := (bounds_of_mem_placed (mem_inUse.mp hc).1).2
    have hoffset := arena.address_inj (by omega) (by omega) heq
    omega
  have hbehind : arena.address (extent 32 pre) ∉
      arena.addresses (inUse 32 (extent 32 pre + (32 + b.size)) post) := by
    intro hmem
    obtain ⟨⟨o, c⟩, hc, heq⟩ := mem_map.mp hmem
    have hbounds := bounds_of_mem_placed (mem_inUse.mp hc).1
    have hoffset := arena.address_inj (by omega) (by omega) heq
    omega
  refine (hr.wellFormed hsep).releases (hr'.wellFormed hsep') ?_ ?_ ?_ fun a ha => ?_
  · rw [hused]
    exact mem_append_right _ mem_cons_self
  · rw [hused, hused', erase_append_right _ hfront, erase_cons_head]
  · rw [hused']
    exact mem_append.not.mpr (not_or.mpr ⟨hfront, hbehind⟩)
  · rw [hr'.linked.usedBlocks_eq] at ha
    obtain ⟨⟨o, c⟩, hc, rfl⟩ := mem_map.mp ha
    have hold : (o, c) ∈ inUse 32 0 (pre ++ b :: post) := by
      rw [hinUse', mem_append] at hc
      rw [inUse_split_of_used hb, mem_append, mem_cons]
      exact hc.imp id .inr
    exact (hr.linked.same_header hr'.linked (mem_inUse.mp hold).1 (mem_inUse.mp hc).1).1

/-- The payloads of the blocks in use are the allocations of the clients. -/
theorem HeapRun.Inv.used_iff {y : HeapRun} (hinv : y.Inv arena blocks) (ptr : Word) :
    (∃ a ∈ y.heap.usedBlocks, blockPayload a = ptr) ↔ ∃ size, (ptr, size) ∈ y.live := by
  rw [hinv.represents.linked.usedBlocks_eq]
  constructor
  · rintro ⟨a, ha, rfl⟩
    obtain ⟨⟨o, b⟩, hmem, rfl⟩ := mem_map.mp ha
    obtain ⟨size, hlive⟩ := hinv.complete o b hmem
    refine ⟨size, ?_⟩
    rw [show blockPayload (arena.address o) = arena.address (o + 32) from arena.address_add o 32]
    exact hlive
  · rintro ⟨size, hlive⟩
    obtain ⟨o, b, hmem, rfl, -⟩ := hinv.live ptr size hlive
    exact ⟨arena.address o, mem_map_of_mem hmem, arena.address_add o 32⟩

end Release

/-- **`kfree` ignores everything but live payloads.**  In every state of every run: a pointer
that is not the payload of a block in use leaves the heap as it is, and the payload of a
block in use is always released. -/
theorem kfree_exact (arena : HeapArena) (h : Heap) {y : HeapRun}
    (hy : (heapSystem arena).Reachable (HeapRun.boot arena h) y) :
    (∀ ptr, (∀ a ∈ y.heap.usedBlocks, blockPayload a ≠ ptr) →
      kfree arena y.heap ptr = some y.heap) ∧
      ∀ a ∈ y.heap.usedBlocks, ∃ h', kfree arena y.heap (blockPayload a) = some h' ∧
        y.heap.Releases arena a h' := by
  obtain ⟨blocks, hinv⟩ := heapRun_inv hy
  have hr := hinv.represents
  have hused := hr.linked.usedBlocks_eq
  constructor
  · intro ptr hnot
    rcases kfree_cases hr ptr with ⟨heq, -⟩ | ⟨pre, b, post, h', rfl, hb, rfl, heq, -⟩
    · exact heq
    · refine absurd (arena.address_add (extent 32 pre) 32) (hnot _ ?_)
      rw [hused, inUse_split_of_used hb]
      exact mem_map_of_mem (mem_append_right _ mem_cons_self)
  · intro a ha
    rw [hused] at ha
    obtain ⟨⟨o, b⟩, hmem, rfl⟩ := mem_map.mp ha
    have hpayload : blockPayload (arena.address o) = arena.address (o + 32) :=
      arena.address_add o 32
    dsimp only
    rw [hpayload]
    rcases kfree_cases hr (arena.address (o + 32)) with
      ⟨-, hnone⟩ | ⟨pre, c, post, h', rfl, hc, hptr, heq, hr'⟩
    · exact absurd rfl (hnone o b hmem)
    · obtain ⟨rfl, -⟩ := hinv.offset_eq (mem_inUse.mp hmem).1 mem_placed_split hptr
      exact ⟨h', heq, hr.releases hinv.separated hc hr'⟩

/-- A pointer into a payload does nothing; the payload itself is released. -/
theorem kfree_exact_demo :
    kfree demoArena ((heapSystem demoArena).run (.boot demoArena demoHeap) [.kmalloc 40]).heap
      0x100028 =
        some ((heapSystem demoArena).run (.boot demoArena demoHeap) [.kmalloc 40]).heap ∧
      ∃ a h', kfree demoArena ((heapSystem demoArena).run (.boot demoArena demoHeap)
        [.kmalloc 40]).heap 0x100020 = some h' ∧
          ((heapSystem demoArena).run (.boot demoArena demoHeap) [.kmalloc 40]).heap.Releases
            demoArena a h' := by
  have hreach : (heapSystem demoArena).Reachable (.boot demoArena demoHeap)
      ((heapSystem demoArena).run (.boot demoArena demoHeap) [.kmalloc 40]) :=
    ⟨[.kmalloc 40], ⟨trivial, trivial⟩, rfl⟩
  have hallocated : ((heapSystem demoArena).run (.boot demoArena demoHeap) [.kmalloc 40]).live =
      [(0x100020, 40)] := by
    decide +kernel
  obtain ⟨blocks, hinv⟩ := heapRun_inv hreach
  have hused := hinv.used_iff
  rw [hallocated] at hused
  obtain ⟨hother, hlive⟩ := kfree_exact demoArena demoHeap hreach
  constructor
  · refine hother 0x100028 fun a ha heq => ?_
    obtain ⟨size, hmem⟩ := (hused 0x100028).mp ⟨a, ha, heq⟩
    exact absurd (congrArg Prod.fst (mem_singleton.mp hmem))
      (show (0x100028 : Word) ≠ 0x100020 by decide)
  · obtain ⟨a, ha, heq⟩ := (hused 0x100020).mpr ⟨40, mem_cons_self⟩
    have hreleases := hlive a ha
    rw [heq] at hreleases
    exact ⟨a, hreleases⟩

/-! ## History -/

/-- The blocks in use, as their headers show them. -/
theorem Heap.Linked.inUse_eq {arena : HeapArena} {blocks : List Block}
    (hl : h.Linked arena blocks) :
    inUse 32 0 blocks = h.usedBlocks.map fun a => ((a - arena.base).toNat, h.block a) := by
  rw [hl.usedBlocks_eq, HeapArena.addresses, map_map]
  refine (map_id _).symm.trans (map_congr_left ?_)
  rintro ⟨o, b⟩ hmem
  have hplaced := (mem_inUse.mp hmem).1
  have hfields := (hl.fields hplaced).1
  have hoffset : (arena.address o - arena.base).toNat = o := by
    rw [HeapArena.address, BitVec.add_comm, BitVec.add_sub_cancel, BitVec.toNat_ofNat]
    rw [heapArenaSize] at hfields
    exact Nat.mod_eq_of_lt (by omega)
  exact Prod.ext hoffset.symm (hl.block_eq hplaced).symm

/-- **The heap has no memory of its past.**  In any two states that runs lead to in one arena,
if the same blocks are in use, with the same sizes, then all headers are the same, with their
links, and so are the counters.  What calls have been made, in what order and with what
results, does not show. -/
theorem heap_history_independent (arena : HeapArena) (h h' : Heap) {y y' : HeapRun}
    (hy : (heapSystem arena).Reachable (HeapRun.boot arena h) y)
    (hy' : (heapSystem arena).Reachable (HeapRun.boot arena h') y')
    (hused : y'.heap.usedBlocks = y.heap.usedBlocks)
    (hsizes : ∀ a ∈ y.heap.usedBlocks, y'.heap.size a = y.heap.size a) :
    y'.heap.blockList = y.heap.blockList ∧
      (∀ a ∈ y.heap.blockList, y'.heap.size a = y.heap.size a ∧ y'.heap.state a = y.heap.state a ∧
        y'.heap.previous a = y.heap.previous a ∧ y'.heap.next a = y.heap.next a) ∧
      y'.heap.allocatedBytes = y.heap.allocatedBytes ∧ y'.heap.freeBytes = y.heap.freeBytes := by
  obtain ⟨blocks, hinv⟩ := heapRun_inv hy
  obtain ⟨blocks', hinv'⟩ := heapRun_inv hy'
  have hl := hinv.represents.linked
  have hl' := hinv'.represents.linked
  have hinUse : inUse 32 0 blocks' = inUse 32 0 blocks := by
    rw [hl.inUse_eq, hl'.inUse_eq, hused]
    refine map_congr_left fun a ha => ?_
    have hstate := (mem_filter.mp ha).2
    have hstate' := (mem_filter.mp (hused ▸ ha)).2
    rw [Heap.block, Heap.block, hsizes a ha, hstate, hstate']
  obtain rfl := eq_of_inUse (by decide) hinv.separated hinv'.separated
    (hl'.fills.trans hl.fills.symm) hinUse
  refine ⟨hl'.blockList_eq.trans hl.blockList_eq.symm, fun a ha => ?_,
    hinv'.represents.allocated.trans hinv.represents.allocated.symm,
    hinv'.represents.free.trans hinv.represents.free.symm⟩
  rw [hl.blockList_eq] at ha
  obtain ⟨⟨o, b⟩, hmem, rfl⟩ := mem_map.mp ha
  obtain ⟨hsize, hstate⟩ := hl.same_header hl' hmem hmem
  obtain ⟨pre, post, rfl, rfl⟩ := split_of_mem_placed hmem
  rw [Nat.zero_add] at hsize hstate ⊢
  exact ⟨hsize, hstate, hl'.previous_eq.trans hl.previous_eq.symm,
    hl'.next_eq.trans hl.next_eq.symm⟩

/-- A heap of two blocks, the first of them in use. -/
theorem Heap.usedBlocks_of_pair (hfirst : h.firstBlock = 0x100000)
    (hnext : h.next 0x100000 = 0x100050) (hlast : h.next 0x100050 = 0)
    (hused : h.state 0x100000 = heapBlockUsed) (hfree : h.state 0x100050 = heapBlockFree) :
    h.usedBlocks = [0x100000] := by
  have hlist : h.blockList = [0x100000, 0x100050] := by
    rw [blockList, hfirst]
    change h.follow (2045 + 1 + 1 + 1) _ = _
    rw [follow, if_neg (by decide), hnext, follow, if_neg (by decide), hlast, follow, if_pos rfl]
  rw [usedBlocks, hlist, filter_cons_of_pos (by rw [hused]; rfl),
    filter_cons_of_neg (by rw [hfree]; decide), filter_nil]

/-- One allocation. -/
def demoOnce : HeapRun := (heapSystem demoArena).run (.boot demoArena demoHeap) [.kmalloc 40]

/-- The same one, and a second that has been freed. -/
def demoTwice : HeapRun :=
  (heapSystem demoArena).run (.boot demoArena demoHeap) [.kmalloc 40, .kmalloc 100, .kfree 0x100070]

/-- The second allocation has left no trace, with the first still in use. -/
theorem heap_history_independent_demo :
    demoOnce.heap.usedBlocks = [0x100000] ∧ demoTwice.heap.blockList = demoOnce.heap.blockList := by
  have hused : demoOnce.heap.usedBlocks = [0x100000] := by
    apply Heap.usedBlocks_of_pair <;> decide +kernel
  have hused' : demoTwice.heap.usedBlocks = [0x100000] := by
    apply Heap.usedBlocks_of_pair <;> decide +kernel
  have honce : (heapSystem demoArena).Reachable (.boot demoArena demoHeap) demoOnce :=
    ⟨[.kmalloc 40], ⟨trivial, trivial⟩, rfl⟩
  have htwice : (heapSystem demoArena).Reachable (.boot demoArena demoHeap) demoTwice :=
    ⟨[.kmalloc 40, .kmalloc 100, .kfree 0x100070], ⟨trivial, trivial, trivial, trivial⟩, rfl⟩
  refine ⟨hused, (heap_history_independent demoArena demoHeap demoHeap honce htwice
    (hused'.trans hused.symm) fun a ha => ?_).1⟩
  rw [hused, mem_singleton] at ha
  rw [ha]
  decide +kernel

end Batos
