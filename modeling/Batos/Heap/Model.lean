import Batos.Lib.Bytes
import Batos.Pmm.Model

/-!
# The kernel heap

`heap.c`: a heap in an arena that is part of the kernel image.  The arena is cut into
blocks, each with a header of 32 bytes in front of its payload; the headers are linked in
both directions, in the order of their addresses.

`kmalloc` takes the first free block that is long enough, and splits it if what remains is
worth a block.  `kfree` looks for the block whose payload the pointer is, and merges it
with its free neighbours.  Both walk along the links until a null pointer; a walk that has
not come to its end after `heapWalkBound` blocks is modelled as one that does not return.
-/

namespace Batos

/-- `HEAP_ARENA_SIZE`. -/
def heapArenaSize : ℕ := 64 * 1024

/-- Where the linker has put `heap_arena`.  The address behind its last byte exists, as it
does for every object. -/
structure HeapArena where
  base : Word
  base_ne : base ≠ 0
  aligned : 16 ∣ base.toNat
  fits : base.toNat + heapArenaSize < 2 ^ 64

/-- `HEAP_BLOCK_FREE`. -/
def heapBlockFree : Word := 0x46524545

/-- `HEAP_BLOCK_USED`. -/
def heapBlockUsed : Word := 0x55534544

/-- `sizeof(struct heap_block)`. -/
def heapHeaderSize : Word := 32

/-- `HEAP_MIN_SPLIT_SIZE`. -/
def heapMinSplitSize : Word := 32

/-- More headers than the arena has room for. -/
def heapWalkBound : ℕ := heapArenaSize / 32

/-- Memory and the variables of `heap.c`. -/
structure Heap where
  memory : Bytes
  firstBlock : Word := 0
  allocatedBytes : Word := 0
  freeBytes : Word := 0

/-- `align_up_safe`, to `HEAP_ALIGNMENT`. -/
def alignUpSafe (value : Word) : Word :=
  let mask : Word := 16 - 1
  if value > -1 - mask then 0 else (value + mask) &&& ~~~mask

/-- `block_payload`. -/
def blockPayload (block : Word) : Word := block + heapHeaderSize

namespace Heap

/-! ## Headers -/

/-- `block->size`. -/
def size (h : Heap) (block : Word) : Word := h.memory.load block

/-- `block->state`. -/
def state (h : Heap) (block : Word) : Word := h.memory.load (block + 8)

/-- `block->previous`. -/
def previous (h : Heap) (block : Word) : Word := h.memory.load (block + 16)

/-- `block->next`. -/
def next (h : Heap) (block : Word) : Word := h.memory.load (block + 24)

def setSize (h : Heap) (block value : Word) : Heap :=
  { h with memory := h.memory.store block value }

def setState (h : Heap) (block value : Word) : Heap :=
  { h with memory := h.memory.store (block + 8) value }

def setPrevious (h : Heap) (block value : Word) : Heap :=
  { h with memory := h.memory.store (block + 16) value }

def setNext (h : Heap) (block value : Word) : Heap :=
  { h with memory := h.memory.store (block + 24) value }

/-- `if (block->next != NULL) block->next->previous = block;` -/
def tellNext (h : Heap) (block : Word) : Heap :=
  if h.next block ≠ 0 then h.setPrevious (h.next block) block else h

/-- The first block from the given one on that meets a condition, or a null pointer. -/
def walk (h : Heap) (found : Word → Bool) : ℕ → Word → Option Word
  | 0, _ => none
  | bound + 1, block =>
      if block = 0 then some 0
      else if found block then some block
      else h.walk found bound (h.next block)

/-! ## Allocation -/

/-- The split of a free block in `kmalloc`: what is not asked for becomes a free block. -/
def split (h : Heap) (block alignedSize : Word) : Heap :=
  let remaining := h.size block - alignedSize
  let split := blockPayload block + alignedSize
  let h := h.setSize split (remaining - heapHeaderSize)
  let h := h.setState split heapBlockFree
  let h := h.setPrevious split block
  let h := h.setNext split (h.next block)
  let h := h.tellNext split
  let h := h.setNext block split
  let h := h.setSize block alignedSize
  { h with freeBytes := h.freeBytes - heapHeaderSize }

/-- The block is in use, and the counters say so. -/
def occupy (h : Heap) (block : Word) : Heap :=
  let h := h.setState block heapBlockUsed
  let h := { h with allocatedBytes := h.allocatedBytes + h.size block }
  { h with freeBytes := h.freeBytes - h.size block }

/-- `kmalloc` on the block it has found. -/
def allocate (h : Heap) (block alignedSize : Word) : Word × Heap :=
  let remaining := h.size block - alignedSize
  let h := if remaining ≥ heapHeaderSize + heapMinSplitSize then h.split block alignedSize else h
  (blockPayload block, h.occupy block)

/-! ## Release -/

/-- The block is free, and the counters say so. -/
def vacate (h : Heap) (block : Word) : Heap :=
  let h := h.setState block heapBlockFree
  let h := { h with allocatedBytes := h.allocatedBytes - h.size block }
  { h with freeBytes := h.freeBytes + h.size block }

/-- A block takes the one behind it in.  `kfree` does this twice, with the block and its
successor, and with the predecessor and the block. -/
def absorb (h : Heap) (block next : Word) : Heap :=
  let h := h.setSize block (h.size block + (heapHeaderSize + h.size next))
  let h := { h with freeBytes := h.freeBytes + heapHeaderSize }
  let h := h.setNext block (h.next next)
  h.tellNext block

/-- `kfree` on a block in use. -/
def release (h : Heap) (block : Word) : Heap :=
  let h := h.vacate block
  let h :=
    if h.next block ≠ 0 ∧ h.state (h.next block) = heapBlockFree then h.absorb block (h.next block)
    else h
  if h.previous block ≠ 0 ∧ h.state (h.previous block) = heapBlockFree then
    h.absorb (h.previous block) block
  else h

end Heap

/-- `heap_init`. -/
def heapInit (arena : HeapArena) (h : Heap) : Heap :=
  let h := { h with firstBlock := arena.base }
  let h := h.setSize h.firstBlock (BitVec.ofNat 64 heapArenaSize - heapHeaderSize)
  let h := h.setState h.firstBlock heapBlockFree
  let h := h.setPrevious h.firstBlock 0
  let h := h.setNext h.firstBlock 0
  { h with allocatedBytes := 0, freeBytes := h.size h.firstBlock }

/-- `kmalloc`: the pointer and the heap after the call, if it returns. -/
def kmalloc (h : Heap) (size : Word) : Option (Word × Heap) :=
  if size = 0 then some (0, h)
  else
    let alignedSize := alignUpSafe size
    if alignedSize = 0 then some (0, h)
    else if h.firstBlock = 0 then some (0, h)
    else
      (h.walk (fun block => h.state block = heapBlockFree ∧ h.size block ≥ alignedSize)
        heapWalkBound h.firstBlock).map fun block =>
          if block = 0 then (0, h) else h.allocate block alignedSize

/-- `kfree`: the heap after the call, if it returns. -/
def kfree (arena : HeapArena) (h : Heap) (ptr : Word) : Option Heap :=
  if ptr = 0 then some h
  else if h.firstBlock = 0 then some h
  else
    (h.walk (fun block => blockPayload block = ptr) heapWalkBound h.firstBlock).map fun block =>
      let arenaStart := arena.base
      let arenaEnd := arenaStart + BitVec.ofNat 64 heapArenaSize
      let payloadStart := blockPayload block
      if block = 0 then h
      else if h.state block ≠ heapBlockUsed then h
      else if arenaStart > -1 - BitVec.ofNat 64 heapArenaSize then h
      else if block < arenaStart ∨ block ≥ arenaEnd then h
      else if h.size block = 0 then h
      else if h.size block > BitVec.ofNat 64 heapArenaSize - heapHeaderSize then h
      else if payloadStart > arenaEnd ∨ h.size block > arenaEnd - payloadStart then h
      else h.release block

end Batos
