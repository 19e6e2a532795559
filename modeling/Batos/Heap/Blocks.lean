import Batos.Heap.Model
import Batos.Lib.BlockList

/-!
# The blocks of the heap

What `heap.c` keeps in memory is a list of blocks (`Batos.Block`), linked in both
directions: `Linked` says that the headers in the arena are those of the list.  A header
lies where the blocks in front of it end, its links are the addresses of its neighbours,
and the list fills the arena.

The words of the arena (`Heap.words`) are a function of their offsets, in which a store to
a header changes one value.  The three changes that `kmalloc` and `kfree` make to the list
are a change of a state (`Linked.mark`), the split of a block (`Linked.split`) and the
merge of two neighbours (`Linked.absorb`).
-/

namespace Batos

open Function (update update_of_ne update_self)
open BitVec (ofNat ofNat_add toNat_sub)

/-! ## Addresses in the arena -/

namespace HeapArena

variable (arena : HeapArena) {x y : ℕ}

/-- The address of an offset. -/
def address (x : ℕ) : Word := arena.base + ofNat 64 x

/-- The link to a block at an offset; behind the last block there is none. -/
def link (x : ℕ) : Word := if x = heapArenaSize then 0 else arena.address x

theorem address_zero : arena.address 0 = arena.base := BitVec.add_zero _

/-- Offsets add up. -/
theorem address_add (x k : ℕ) : arena.address x + ofNat 64 k = arena.address (x + k) := by
  rw [address, address, ofNat_add, BitVec.add_assoc]

/-- Addresses in the arena do not wrap around. -/
theorem toNat_address (h : x ≤ heapArenaSize) : (arena.address x).toNat = arena.base.toNat + x := by
  have hfits := arena.fits
  rw [address, BitVec.toNat_add, BitVec.toNat_ofNat]
  rw [heapArenaSize] at h hfits
  omega

/-- No address of the arena is the null pointer. -/
theorem address_ne_zero (h : x ≤ heapArenaSize) : arena.address x ≠ 0 := by
  intro hzero
  have hval := arena.toNat_address h
  have hbase : arena.base.toNat ≠ 0 := fun heq => arena.base_ne (BitVec.eq_of_toNat_eq heq)
  rw [hzero] at hval
  change 0 = _ at hval
  omega

/-- Different offsets have different addresses. -/
theorem address_inj (hx : x ≤ heapArenaSize) (hy : y ≤ heapArenaSize)
    (h : arena.address x = arena.address y) : x = y := by
  have hval := congrArg BitVec.toNat h
  rw [arena.toNat_address hx, arena.toNat_address hy] at hval
  omega

/-- Within the arena a link is an address. -/
theorem link_of_lt (h : x < heapArenaSize) : arena.link x = arena.address x :=
  if_neg (Nat.ne_of_lt h)

/-- The link of the last block is null. -/
theorem link_end : arena.link heapArenaSize = 0 := if_pos rfl

/-- Different words of the arena have no byte in common. -/
theorem apart_address (hx : 8 ∣ x ∧ x < heapArenaSize) (hy : 8 ∣ y ∧ y < heapArenaSize)
    (hne : x ≠ y) :
    Bytes.Apart (arena.address x) (arena.address y) := by
  obtain ⟨⟨i, rfl⟩, hx⟩ := hx
  obtain ⟨⟨j, rfl⟩, hy⟩ := hy
  have hfits := arena.fits
  have hxval := arena.toNat_address hx.le
  have hyval := arena.toNat_address hy.le
  rw [heapArenaSize] at hx hy hfits
  rw [Bytes.Apart, toNat_sub, toNat_sub, hxval, hyval]
  omega

end HeapArena

/-! ## The words of the arena -/

namespace Heap

variable {arena : HeapArena} {h : Heap} {x : ℕ} {v : Word}

/-- The words of the arena by their offsets. -/
def words (arena : HeapArena) (h : Heap) (x : ℕ) : Word :=
  if 8 ∣ x ∧ x < heapArenaSize then h.memory.load (arena.address x) else 0

/-- At the offset of a word one reads what is in memory. -/
theorem words_of_dvd (hx : 8 ∣ x ∧ x < heapArenaSize) :
    h.words arena x = h.memory.load (arena.address x) := if_pos hx

/-- A store to a header changes one word. -/
theorem words_store (hx : 8 ∣ x ∧ x < heapArenaSize) :
    { h with memory := h.memory.store (arena.address x) v }.words arena =
      update (h.words arena) x v := by
  funext y
  by_cases hy : 8 ∣ y ∧ y < heapArenaSize
  · rw [words_of_dvd hy]
    by_cases hyx : y = x
    · subst hyx
      rw [update_self]
      exact Bytes.load_store_self
    · rw [update_of_ne hyx, words_of_dvd hy]
      exact Bytes.load_store_of_apart (arena.apart_address hx hy (Ne.symm hyx))
  · have hyx : y ≠ x := fun heq => hy (heq ▸ hx)
    rw [update_of_ne hyx, words, words, if_neg hy, if_neg hy]

section Header

variable (hx : 16 ∣ x ∧ x + 32 ≤ heapArenaSize)

include hx

/-- The fields of a header are words of the arena. -/
theorem field_dvd {k : ℕ} (hk : k < 4) : 8 ∣ x + 8 * k ∧ x + 8 * k < heapArenaSize := by
  obtain ⟨⟨i, rfl⟩, hx⟩ := hx
  exact ⟨⟨2 * i + k, by omega⟩, by omega⟩

/-- The first word of a header is the size. -/
theorem size_address : h.size (arena.address x) = h.words arena x :=
  (words_of_dvd (field_dvd hx (k := 0) (by omega))).symm

/-- The second word is the state. -/
theorem state_address : h.state (arena.address x) = h.words arena (x + 8) := by
  rw [words_of_dvd (field_dvd hx (k := 1) (by omega)), ← arena.address_add]
  rfl

/-- The third word is the link to the block in front. -/
theorem previous_address : h.previous (arena.address x) = h.words arena (x + 16) := by
  rw [words_of_dvd (field_dvd hx (k := 2) (by omega)), ← arena.address_add]
  rfl

/-- The fourth word is the link to the block behind. -/
theorem next_address : h.next (arena.address x) = h.words arena (x + 24) := by
  rw [words_of_dvd (field_dvd hx (k := 3) (by omega)), ← arena.address_add]
  rfl

theorem words_setSize :
    (h.setSize (arena.address x) v).words arena = update (h.words arena) x v :=
  words_store (field_dvd hx (k := 0) (by omega))

theorem words_setState :
    (h.setState (arena.address x) v).words arena = update (h.words arena) (x + 8) v := by
  rw [← words_store (field_dvd hx (k := 1) (by omega)), ← arena.address_add]
  rfl

theorem words_setPrevious :
    (h.setPrevious (arena.address x) v).words arena = update (h.words arena) (x + 16) v := by
  rw [← words_store (field_dvd hx (k := 2) (by omega)), ← arena.address_add]
  rfl

theorem words_setNext :
    (h.setNext (arena.address x) v).words arena = update (h.words arena) (x + 24) v := by
  rw [← words_store (field_dvd hx (k := 3) (by omega)), ← arena.address_add]
  rfl

theorem size_setState : (h.setState (arena.address x) v).size (arena.address x) =
    h.size (arena.address x) := by
  rw [size_address hx, size_address hx, words_setState hx, update_of_ne (by omega)]

/-- The block behind, at an offset or nowhere, learns who is in front of it. -/
theorem words_tellNext {z : ℕ} (hnext : h.words arena (x + 24) = arena.link z)
    (hz : z ≠ heapArenaSize → 16 ∣ z ∧ z + 32 ≤ heapArenaSize) :
    (∀ y, y ≠ z + 16 → (h.tellNext (arena.address x)).words arena y = h.words arena y) ∧
      (z ≠ heapArenaSize → (h.tellNext (arena.address x)).words arena (z + 16) =
        arena.address x) := by
  rw [tellNext, next_address hx, hnext]
  by_cases hend : z = heapArenaSize
  · rw [hend, arena.link_end, if_neg (not_not.mpr rfl)]
    exact ⟨fun _ _ => rfl, fun hne => absurd rfl hne⟩
  · have hoffset := hz hend
    rw [arena.link_of_lt (by omega), if_pos (arena.address_ne_zero (by omega)),
      words_setPrevious hoffset]
    exact ⟨fun y hy => update_of_ne hy _ _, fun _ => update_self _ _ _⟩

end Header

section Neighbours

variable {z e : ℕ} (hx : 16 ∣ x ∧ x + 32 ≤ heapArenaSize) (hz : 16 ∣ z ∧ z + 32 ≤ heapArenaSize)
  (he : e ≠ heapArenaSize → 16 ∣ e ∧ e + 32 ≤ heapArenaSize) (hxz : x + 32 ≤ z) (hze : z + 32 ≤ e)
  {w : ℕ → Word}

include hx hz he hxz hze

/-- The words after the split of the block at `x`: there is a new header at `z`, and the
block behind, at `e` or nowhere, learns of it. -/
theorem words_split {n : Word} (hsplit : blockPayload (arena.address x) + n = arena.address z)
    (hnext : h.words arena (x + 24) = arena.link e)
    (hw : (h.split (arena.address x) n).words arena = w) :
    w x = n ∧ w (x + 24) = arena.address z ∧
      (w z = h.words arena x - n - heapHeaderSize ∧ w (z + 8) = heapBlockFree ∧
        w (z + 16) = arena.address x ∧ w (z + 24) = arena.link e) ∧
      (e ≠ heapArenaSize → w (e + 16) = arena.address z) ∧
      ∀ y, y < x ∨ y = x + 8 ∨ y = x + 16 ∨ e ≤ y ∧ y ≠ e + 16 → w y = h.words arena y := by
  -- the header of the new block
  obtain ⟨h₁, hh₁⟩ : ∃ h₁, h₁ = ((h.setSize (arena.address z)
      (h.words arena x - n - heapHeaderSize)).setState (arena.address z) heapBlockFree).setPrevious
        (arena.address z) (arena.address x) := ⟨_, rfl⟩
  have hw₁ : h₁.words arena = update (update (update (h.words arena) z
      (h.words arena x - n - heapHeaderSize)) (z + 8) heapBlockFree) (z + 16)
      (arena.address x) := by
    rw [hh₁, words_setPrevious hz, words_setState hz, words_setSize hz]
  have hnext₁ : h₁.next (arena.address x) = arena.link e := by
    rw [next_address hx, hw₁, update_of_ne (by omega), update_of_ne (by omega),
      update_of_ne (by omega)]
    exact hnext
  obtain ⟨h₂, hh₂⟩ : ∃ h₂, h₂ = h₁.setNext (arena.address z) (arena.link e) := ⟨_, rfl⟩
  have hw₂ : h₂.words arena = update (h₁.words arena) (z + 24) (arena.link e) := by
    rw [hh₂, words_setNext hz]
  -- the block behind, and then the fields of the block itself
  obtain ⟨hkept, htold⟩ := words_tellNext hz (by rw [hw₂, update_self]) he
  have hfinal : w = update (update ((h₂.tellNext (arena.address z)).words arena) (x + 24)
      (arena.address z)) x n := by
    rw [← hw, ← words_setNext hx, ← words_setSize hx, hh₂, ← hnext₁, hh₁, ← size_address hx,
      ← hsplit]
    rfl
  have hinner : ∀ y, y ≠ x → y ≠ x + 24 → y ≠ e + 16 → w y = h₂.words arena y := by
    intro y hyx hynext hye
    rw [hfinal, update_of_ne hyx, update_of_ne hynext, hkept y hye]
  refine ⟨by rw [hfinal, update_self], ?_, ⟨?_, ?_, ?_, ?_⟩, fun hne => ?_, fun y hy => ?_⟩
  · rw [hfinal, update_of_ne (by omega), update_self]
  · rw [hinner z (by omega) (by omega) (by omega), hw₂, update_of_ne (by omega), hw₁,
      update_of_ne (by omega), update_of_ne (by omega), update_self]
  · rw [hinner (z + 8) (by omega) (by omega) (by omega), hw₂, update_of_ne (by omega), hw₁,
      update_of_ne (by omega), update_self]
  · rw [hinner (z + 16) (by omega) (by omega) (by omega), hw₂, update_of_ne (by omega), hw₁,
      update_self]
  · rw [hinner (z + 24) (by omega) (by omega) (by omega), hw₂, update_self]
  · rw [hfinal, update_of_ne (by omega), update_of_ne (by omega)]
    exact htold hne
  · rw [hinner y (by omega) (by omega) (by omega), hw₂, update_of_ne (by omega), hw₁,
      update_of_ne (by omega), update_of_ne (by omega), update_of_ne (by omega)]

/-- The words after the block at `x` has taken the one at `z` in: its length has changed, and
the block behind, at `e` or nowhere, has become its neighbour. -/
theorem words_absorb (hnext : h.words arena (z + 24) = arena.link e)
    (hw : (h.absorb (arena.address x) (arena.address z)).words arena = w) :
    w x = h.words arena x + (heapHeaderSize + h.words arena z) ∧ w (x + 24) = arena.link e ∧
      (e ≠ heapArenaSize → w (e + 16) = arena.address x) ∧
      ∀ y, y < x ∨ y = x + 8 ∨ y = x + 16 ∨ e ≤ y ∧ y ≠ e + 16 → w y = h.words arena y := by
  obtain ⟨h₁, hh₁⟩ : ∃ h₁, h₁ = { h.setSize (arena.address x)
      (h.words arena x + (heapHeaderSize + h.words arena z)) with
        freeBytes := h.freeBytes + heapHeaderSize } := ⟨_, rfl⟩
  have hw₁ : h₁.words arena = update (h.words arena) x
      (h.words arena x + (heapHeaderSize + h.words arena z)) := by
    rw [← words_setSize hx, hh₁]
    rfl
  have hnext₁ : h₁.next (arena.address z) = arena.link e := by
    rw [next_address hz, hw₁, update_of_ne (by omega)]
    exact hnext
  obtain ⟨h₂, hh₂⟩ : ∃ h₂, h₂ = h₁.setNext (arena.address x) (arena.link e) := ⟨_, rfl⟩
  have hw₂ : h₂.words arena = update (h₁.words arena) (x + 24) (arena.link e) := by
    rw [hh₂, words_setNext hx]
  obtain ⟨hkept, htold⟩ := words_tellNext hx (by rw [hw₂, update_self]) he
  have hfinal : h.absorb (arena.address x) (arena.address z) = h₂.tellNext (arena.address x) := by
    rw [hh₂, ← hnext₁, hh₁, ← size_address hx, ← size_address hz]
    rfl
  rw [← hw, hfinal]
  refine ⟨?_, ?_, htold, fun y hy => ?_⟩
  · rw [hkept _ (by omega), hw₂, update_of_ne (by omega), hw₁, update_self]
  · rw [hkept _ (by omega), hw₂, update_self]
  · rw [hkept _ (by omega), hw₂, update_of_ne (by omega), hw₁, update_of_ne (by omega)]

end Neighbours

theorem tellNext_firstBlock (block : Word) : (h.tellNext block).firstBlock = h.firstBlock := by
  unfold tellNext
  split_ifs <;> rfl

theorem split_firstBlock (block n : Word) : (h.split block n).firstBlock = h.firstBlock :=
  tellNext_firstBlock _

theorem absorb_firstBlock (block next : Word) : (h.absorb block next).firstBlock = h.firstBlock :=
  tellNext_firstBlock _

theorem tellNext_allocatedBytes (block : Word) :
    (h.tellNext block).allocatedBytes = h.allocatedBytes := by
  unfold tellNext
  split_ifs <;> rfl

theorem tellNext_freeBytes (block : Word) : (h.tellNext block).freeBytes = h.freeBytes := by
  unfold tellNext
  split_ifs <;> rfl

end Heap

/-! ## Headers and their links -/

/-- The state of a block in its header. -/
def heapState (used : Bool) : Word := if used then heapBlockUsed else heapBlockFree

/-- The header of a block at an offset. -/
structure HeaderAt (w : ℕ → Word) (x : ℕ) (b : Block) (previous next : Word) : Prop where
  size : w x = ofNat 64 b.size
  state : w (x + 8) = heapState b.used
  previous : w (x + 16) = previous
  next : w (x + 24) = next

/-- The headers of blocks that follow each other from an offset on; `previous` is the
address of the block in front of them. -/
def HeaderChain (arena : HeapArena) (w : ℕ → Word) : Word → ℕ → List Block → Prop
  | _, _, [] => True
  | previous, x, b :: blocks =>
      HeaderAt w x b previous (arena.link (x + (32 + b.size))) ∧
        HeaderChain arena w (arena.address x) (x + (32 + b.size)) blocks

/-- The address of the last of the blocks, or of the one in front of them. -/
def lastAddress (arena : HeapArena) : Word → ℕ → List Block → Word
  | previous, _, [] => previous
  | _, x, b :: blocks => lastAddress arena (arena.address x) (x + (32 + b.size)) blocks

section Chain

open Block

variable {arena : HeapArena} {w w' : ℕ → Word} {previous previous' : Word} {x : ℕ} {b : Block}
  {blocks pre post : List Block}

/-- The headers of two lists, one behind the other. -/
theorem headerChain_append :
    HeaderChain arena w previous x (pre ++ post) ↔ HeaderChain arena w previous x pre ∧
      HeaderChain arena w (lastAddress arena previous x pre) (x + extent 32 pre) post := by
  induction pre generalizing previous x with
  | nil => exact ⟨fun h => ⟨trivial, h⟩, fun h => h.2⟩
  | cons b pre ih =>
      rw [List.cons_append, HeaderChain, HeaderChain, ih, and_assoc, lastAddress, extent_cons,
        Nat.add_assoc]

/-- The last block of two lists, one behind the other. -/
theorem lastAddress_append :
    lastAddress arena previous x (pre ++ post) =
      lastAddress arena (lastAddress arena previous x pre) (x + extent 32 pre) post := by
  induction pre generalizing previous x with
  | nil => rfl
  | cons b pre ih => rw [List.cons_append, lastAddress, ih, lastAddress, extent_cons, Nat.add_assoc]

/-- A header is what its four words say. -/
theorem HeaderAt.congr {next : Word} (h : HeaderAt w x b previous next)
    (hw : ∀ y, x ≤ y → y < x + 32 → w' y = w y) : HeaderAt w' x b previous next where
  size := (hw x (by omega) (by omega)).trans h.size
  state := (hw (x + 8) (by omega) (by omega)).trans h.state
  previous := (hw (x + 16) (by omega) (by omega)).trans h.previous
  next := (hw (x + 24) (by omega) (by omega)).trans h.next

/-- Only the headers matter. -/
theorem HeaderChain.congr (h : HeaderChain arena w previous x blocks)
    (hw : ∀ o b, (o, b) ∈ placed 32 x blocks → ∀ y, o ≤ y → y < o + 32 → w' y = w y) :
    HeaderChain arena w' previous x blocks := by
  induction blocks generalizing previous x with
  | nil => trivial
  | cons b blocks ih =>
      refine ⟨h.1.congr (hw x b List.mem_cons_self), ih h.2 fun o c hmem => ?_⟩
      exact hw o c (List.mem_cons_of_mem _ hmem)

/-- Nothing has changed but the link of the first block to the one in front. -/
theorem HeaderChain.relink (h : HeaderChain arena w previous x blocks)
    (hw : ∀ y, x ≤ y → y ≠ x + 16 → w' y = w y) (hlink : blocks ≠ [] → w' (x + 16) = previous') :
    HeaderChain arena w' previous' x blocks := by
  cases blocks with
  | nil => trivial
  | cons b blocks =>
      obtain ⟨hheader, hrest⟩ := h
      refine ⟨⟨?_, ?_, hlink (List.cons_ne_nil b blocks), ?_⟩,
        hrest.congr fun o c hmem y hy _ => ?_⟩
      · exact (hw x (by omega) (by omega)).trans hheader.size
      · exact (hw (x + 8) (by omega) (by omega)).trans hheader.state
      · exact (hw (x + 24) (by omega) (by omega)).trans hheader.next
      · have hbounds := (bounds_of_mem_placed hmem).1
        exact hw y (by omega) (by omega)

end Chain

/-- The arena holds the headers of the blocks, which fill it. -/
structure Heap.Linked (arena : HeapArena) (h : Heap) (blocks : List Block) : Prop where
  first : h.firstBlock = arena.base
  chain : HeaderChain arena (h.words arena) 0 0 blocks
  fills : Block.extent 32 blocks = heapArenaSize
  regular : Block.Regular 16 blocks

namespace Heap.Linked

open Block

variable {arena : HeapArena} {h h' : Heap} {b c : Block} {blocks old new pre post : List Block}

/-- Only the words and the first block matter. -/
theorem congr (hl : h.Linked arena blocks) (hfirst : h'.firstBlock = h.firstBlock)
    (hwords : h'.words arena = h.words arena) : h'.Linked arena blocks :=
  ⟨hfirst.trans hl.first, hwords ▸ hl.chain, hl.fills, hl.regular⟩

/-- Some blocks in the middle are replaced by others.  The block behind them is told. -/
theorem replace (hl : h.Linked arena (pre ++ old ++ post)) (hfirst : h'.firstBlock = h.firstBlock)
    (hextent : extent 32 new = extent 32 old) (hregular : Regular 16 new)
    (hfront : ∀ x, x < extent 32 pre → h'.words arena x = h.words arena x)
    (hnew : HeaderChain arena (h'.words arena) (lastAddress arena 0 0 pre) (extent 32 pre) new)
    (hbehind : ∀ x, extent 32 pre + extent 32 old ≤ x → x ≠ extent 32 pre + extent 32 old + 16 →
      h'.words arena x = h.words arena x)
    (hlink : post ≠ [] → h'.words arena (extent 32 pre + extent 32 old + 16) =
      lastAddress arena (lastAddress arena 0 0 pre) (extent 32 pre) new) :
    h'.Linked arena (pre ++ new ++ post) := by
  obtain ⟨hfirst₀, hchain, hextent₀, hregular₀⟩ := hl
  rw [headerChain_append, headerChain_append, lastAddress_append] at hchain
  obtain ⟨⟨hpre, hold⟩, hpost⟩ := hchain
  rw [extent_append, extent_append] at hextent₀
  rw [Regular.append, Regular.append] at hregular₀
  refine ⟨hfirst.trans hfirst₀, ?_, ?_, ?_⟩
  · -- in front nothing has changed, and behind at most the link of the first block
    rw [headerChain_append, headerChain_append, lastAddress_append]
    simp only [Nat.zero_add, extent_append, hextent] at hpost ⊢
    refine ⟨⟨hpre.congr fun o d hmem y _ hy => ?_, hnew⟩, hpost.relink hbehind hlink⟩
    have hbounds := (bounds_of_mem_placed hmem).2
    exact hfront y (by omega)
  · rw [extent_append, extent_append, hextent, hextent₀]
  · rw [Regular.append, Regular.append]
    exact ⟨⟨hregular₀.1.1, hregular⟩, hregular₀.2⟩

section Focus

variable (hl : h.Linked arena (pre ++ b :: post))

include hl

/-- Where the block is. -/
theorem offset : 16 ∣ extent 32 pre ∧ extent 32 pre + 32 ≤ heapArenaSize := by
  have hextent := hl.fills
  have hregular := hl.regular
  rw [extent_append, extent_cons] at hextent
  rw [Regular.append] at hregular
  exact ⟨hregular.1.dvd_extent (by decide), by omega⟩

/-- The header of the block in the middle. -/
theorem header :
    HeaderAt (h.words arena) (extent 32 pre) b (lastAddress arena 0 0 pre)
      (arena.link (extent 32 pre + (32 + b.size))) := by
  have hchain := hl.chain
  rw [headerChain_append, Nat.zero_add] at hchain
  exact hchain.2.1

/-- The headers of the blocks behind it. -/
theorem behind :
    HeaderChain arena (h.words arena) (arena.address (extent 32 pre))
      (extent 32 pre + (32 + b.size)) post := by
  have hchain := hl.chain
  rw [headerChain_append, Nat.zero_add] at hchain
  exact hchain.2.2

/-- A block has a size, and it is a multiple of 16. -/
theorem size_block : 0 < b.size ∧ 16 ∣ b.size := by
  have hregular := hl.regular
  rw [Regular.append, Regular.cons] at hregular
  exact hregular.2.1

/-- The blocks fill the arena. -/
theorem end_block : extent 32 pre + (32 + b.size) + extent 32 post = heapArenaSize := by
  have hextent := hl.fills
  rw [extent_append, extent_cons] at hextent
  omega

/-- The last block ends where the arena ends. -/
theorem end_eq_iff : extent 32 pre + (32 + b.size) = heapArenaSize ↔ post = [] := by
  have hend := hl.end_block
  cases post with
  | nil => exact iff_of_true hend rfl
  | cons c post =>
      rw [extent_cons] at hend
      exact iff_of_false (by omega) (List.cons_ne_nil c post)

/-- The last block has nothing behind it. -/
theorem link_eq_zero_iff : arena.link (extent 32 pre + (32 + b.size)) = 0 ↔ post = [] := by
  have hend := hl.end_block
  rw [← hl.end_eq_iff]
  constructor
  · intro hzero
    by_contra hne
    rw [arena.link_of_lt (by omega)] at hzero
    exact arena.address_ne_zero (by omega) hzero
  · intro heq
    rw [heq, arena.link_end]

theorem size_eq : h.size (arena.address (extent 32 pre)) = ofNat 64 b.size := by
  rw [size_address hl.offset, hl.header.size]

theorem state_eq : h.state (arena.address (extent 32 pre)) = heapState b.used := by
  rw [state_address hl.offset, hl.header.state]

theorem previous_eq : h.previous (arena.address (extent 32 pre)) = lastAddress arena 0 0 pre := by
  rw [previous_address hl.offset, hl.header.previous]

theorem next_eq :
    h.next (arena.address (extent 32 pre)) = arena.link (extent 32 pre + (32 + b.size)) := by
  rw [next_address hl.offset, hl.header.next]

/-! ## Changes of the list -/

/-- **A change of a state.** -/
theorem mark (used : Bool) :
    (h.setState (arena.address (extent 32 pre)) (heapState used)).Linked arena
      (pre ++ ⟨b.size, used⟩ :: post) := by
  have hoffset := hl.offset
  have hheader := hl.header
  have hwords : (h.setState (arena.address (extent 32 pre)) (heapState used)).words arena =
      update (h.words arena) (extent 32 pre + 8) (heapState used) := words_setState hoffset
  have hbehind := hl.behind
  -- one word changes, which belongs to no other block and to no link
  rw [List.append_cons]
  refine (List.append_cons pre b post ▸ hl).replace rfl rfl ?_ (fun x hx => ?_)
    ⟨⟨?_, ?_, ?_, ?_⟩, trivial⟩ (fun x hx _ => ?_) fun hne => ?_
  · rw [Regular.cons]
    exact ⟨hl.size_block, nofun⟩
  · rw [hwords, update_of_ne (by omega)]
  · rw [hwords, update_of_ne (by omega)]
    exact hheader.size
  · rw [hwords, update_self]
  · rw [hwords, update_of_ne (by omega)]
    exact hheader.previous
  · rw [hwords, update_of_ne (by omega)]
    exact hheader.next
  · rw [extent_cons] at hx
    rw [hwords, update_of_ne (by omega)]
  · cases post with
    | nil => exact absurd rfl hne
    | cons c post =>
        rw [hwords, extent_cons, extent_nil, update_of_ne (by omega)]
        exact hbehind.1.previous

/-- The offset behind the block is the one of a header, or the end of the arena. -/
theorem offset_behind (hne : extent 32 pre + (32 + b.size) ≠ heapArenaSize) :
    16 ∣ extent 32 pre + (32 + b.size) ∧ extent 32 pre + (32 + b.size) + 32 ≤ heapArenaSize := by
  have hend := hl.end_block
  have hpost : post ≠ [] := fun hnil => hne (hl.end_eq_iff.mpr hnil)
  obtain ⟨c, post, rfl⟩ := List.exists_cons_of_ne_nil hpost
  rw [extent_cons] at hend
  refine ⟨Nat.dvd_add hl.offset.1 (Nat.dvd_add (by decide) hl.size_block.2), by omega⟩

/-- **The split of a block.** -/
theorem split {n : ℕ} (hn : 0 < n ∧ 16 ∣ n) (hroom : n + 64 ≤ b.size) :
    (h.split (arena.address (extent 32 pre)) (ofNat 64 n)).Linked arena
      (pre ++ [⟨n, b.used⟩, ⟨b.size - n - 32, false⟩] ++ post) := by
  have hx := hl.offset
  have hheader := hl.header
  have hend := hl.end_block
  have hsplit : blockPayload (arena.address (extent 32 pre)) + ofNat 64 n =
      arena.address (extent 32 pre + (32 + n)) := by
    rw [← Nat.add_assoc, ← arena.address_add, ← arena.address_add]
    rfl
  have hz : 16 ∣ extent 32 pre + (32 + n) ∧ extent 32 pre + (32 + n) + 32 ≤ heapArenaSize :=
    ⟨Nat.dvd_add hx.1 (Nat.dvd_add (by decide) hn.2), by omega⟩
  obtain ⟨hsize, hnext, ⟨hsize', hstate', hprevious', hnext'⟩, htold, hkept⟩ :=
    words_split hx hz hl.offset_behind (by omega) (by omega) hsplit hheader.next rfl
  have hrest : extent 32 pre + (32 + n) + (32 + (b.size - n - 32)) =
      extent 32 pre + (32 + b.size) := by
    omega
  refine (List.append_cons pre b post ▸ hl).replace (split_firstBlock _ _) ?_ ?_
    (fun x hx => hkept x (by omega)) ⟨⟨hsize, ?_, ?_, ?_⟩, ⟨?_, hstate', hprevious', ?_⟩, trivial⟩
    (fun x hx hne => ?_) fun hne => ?_
  · simp only [extent_cons, extent_nil]
    omega
  · obtain ⟨-, ⟨i, hi⟩⟩ := hl.size_block
    obtain ⟨hpos, ⟨j, hj⟩⟩ := hn
    have hrest' : b.size - n - 32 = 16 * (i - j - 2) := by omega
    have hpos' : 0 < b.size - n - 32 := by omega
    rw [Regular.cons, Regular.cons]
    exact ⟨⟨hpos, j, hj⟩, ⟨hpos', i - j - 2, hrest'⟩, nofun⟩
  · rw [hkept _ (by omega)]
    exact hheader.state
  · rw [hkept _ (by omega)]
    exact hheader.previous
  · have hlt : extent 32 pre + (32 + n) < heapArenaSize := by omega
    rw [hnext, arena.link_of_lt hlt]
  · have hlength : heapArenaSize = 65536 := rfl
    rw [hsize', hheader.size, BitVec.ofNat_sub_ofNat_of_le _ _ (by omega) (by omega)]
    exact BitVec.ofNat_sub_ofNat_of_le _ 32 (by omega) (by omega)
  · rw [hnext', hrest]
  · rw [extent_cons, extent_nil] at hx hne
    exact hkept x (by omega)
  · exact htold fun heq => hne (hl.end_eq_iff.mp heq)

end Focus

/-- **The merge of two neighbours.** -/
theorem absorb (hl : h.Linked arena (pre ++ b :: c :: post)) :
    (h.absorb (arena.address (extent 32 pre))
      (arena.address (extent 32 pre + (32 + b.size)))).Linked arena
      (pre ++ [⟨b.size + (32 + c.size), b.used⟩] ++ post) := by
  have hlist : pre ++ b :: c :: post = pre ++ [b, c] ++ post := by
    rw [List.append_assoc, List.cons_append, List.singleton_append]
  -- the same list, with the second block in focus
  have hlc : h.Linked arena ((pre ++ [b]) ++ c :: post) := List.append_cons pre b _ ▸ hl
  have hx := hl.offset
  have hz := hlc.offset
  have hheader := hl.header
  have hheader' := hlc.header
  have hbehind := hlc.offset_behind
  have hend := hlc.end_eq_iff
  rw [extent_concat] at hz hheader' hbehind hend
  obtain ⟨hsize, hnext, htold, hkept⟩ :=
    words_absorb hx hz hbehind (by omega) (by omega) hheader'.next rfl
  refine (hlist ▸ hl).replace (absorb_firstBlock _ _) ?_ ?_ (fun x hx => hkept x (by omega))
    ⟨⟨?_, ?_, ?_, ?_⟩, trivial⟩ (fun x hx hne => ?_) fun hne => ?_
  · simp only [extent_cons, extent_nil]
    omega
  · rw [Regular.cons]
    refine ⟨⟨?_, Nat.dvd_add hl.size_block.2 (Nat.dvd_add (by decide) hlc.size_block.2)⟩, nofun⟩
    exact Nat.add_pos_left hl.size_block.1 _
  · rw [hsize, hheader.size, hheader'.size, ofNat_add, ofNat_add]
    rfl
  · rw [hkept _ (by omega)]
    exact hheader.state
  · rw [hkept _ (by omega)]
    exact hheader.previous
  · rw [hnext]
    congr 1
    dsimp only
    omega
  · simp only [extent_cons, extent_nil] at hx hne
    exact hkept x (by omega)
  · have hbehind' : extent 32 pre + (32 + b.size) + (32 + c.size) ≠ heapArenaSize :=
      fun heq => hne (hend.mp heq)
    have hextent : extent 32 pre + extent 32 [b, c] =
        extent 32 pre + (32 + b.size) + (32 + c.size) := by
      simp only [extent_cons, extent_nil]
      omega
    rw [hextent]
    exact htold hbehind'

/-- A byte of a payload is written. -/
theorem write (hl : h.Linked arena blocks) {o x : ℕ} (hmem : (o, b) ∈ placed 32 0 blocks)
    (hx : o + 32 ≤ x ∧ x < o + (32 + b.size)) (byte : BitVec 8) :
    { h with memory := update h.memory (arena.address x) byte }.Linked arena blocks := by
  have hin : ∀ {o : ℕ} {c : Block}, (o, c) ∈ placed 32 0 blocks → 16 ∣ o ∧ o + (32 + c.size) ≤
      heapArenaSize := by
    intro o c hc
    obtain ⟨pre, post, rfl, rfl⟩ := split_of_mem_placed hc
    have hend := hl.end_block
    rw [Nat.zero_add]
    exact ⟨hl.offset.1, by omega⟩
  refine ⟨hl.first, hl.chain.congr fun o' c hc y hy hy' => ?_, hl.fills, hl.regular⟩
  by_cases hword : 8 ∣ y ∧ y < heapArenaSize
  swap
  · rw [words, words, if_neg hword, if_neg hword]
  rw [words_of_dvd hword, words_of_dvd hword]
  apply Bytes.load_update
  have hlength : heapArenaSize = 65536 := rfl
  have harena := arena.fits
  obtain ⟨⟨i, rfl⟩, ho⟩ := hin hmem
  obtain ⟨⟨i', rfl⟩, ho'⟩ := hin hc
  obtain ⟨⟨j, rfl⟩, hj⟩ := hword
  rw [toNat_sub, arena.toNat_address (by omega), arena.toNat_address (by omega)]
  -- the word belongs to the header of the block itself, of one in front or of one behind
  rcases apart_of_mem_placed hmem hc with ⟨heq, -⟩ | hbehind | hbefore
  · omega
  · omega
  · omega

end Heap.Linked

end Batos
