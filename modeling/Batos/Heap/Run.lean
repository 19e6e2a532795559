import Batos.Heap.Calls
import Batos.Lib.Run

/-!
# Runs of the heap

The heap and its clients as a transition system.  Clients call `kmalloc` with any size and
`kfree` with any pointer, and write to the payloads of their blocks.  Beside the heap the
state holds the allocations that have been returned and not yet freed, with the sizes asked
for.

In every state of every run the allocations lie in the payloads of the blocks in use, one
in each (`HeapRun.Inv`).  Payloads have no byte in common with each other or with headers,
and so do allocations (`heap_allocations_apart`).  When everything has been freed, nothing
is in use, and the heap is one free block again (`heap_restored`).
-/

namespace Batos

open List

open Block

variable {o : ℕ} {b : Block} {arena : HeapArena} {h : Heap}

/-! ## The system -/

/-- The heap, and what has been allocated: pointers with the sizes asked for. -/
structure HeapRun where
  heap : Heap
  live : List (Word × Word) := []

/-- What clients do. -/
inductive HeapOp
  | kmalloc (size : Word)
  | kfree (ptr : Word)
  /-- A client writes a byte. -/
  | write (address : Word) (byte : BitVec 8)

namespace HeapRun

/-- The effect of an operation.  A call that does not return has none. -/
def step (arena : HeapArena) (y : HeapRun) : HeapOp → HeapRun
  | .kmalloc size =>
      match Batos.kmalloc y.heap size with
      | none => y
      | some (ptr, h) => ⟨h, if ptr = 0 then y.live else y.live ++ [(ptr, size)]⟩
  | .kfree ptr =>
      match Batos.kfree arena y.heap ptr with
      | none => y
      | some h => ⟨h, y.live.filter fun allocation => allocation.1 ≠ ptr⟩
  | .write address byte =>
      { y with heap := { y.heap with memory := Function.update y.heap.memory address byte } }

/-- Clients write to their own payloads only: to the bytes they have asked for, and to those
that were granted beyond that. -/
def Enabled (y : HeapRun) : HeapOp → Prop
  | .kmalloc _ => True
  | .kfree _ => True
  | .write address _ => ∃ ptr size, (ptr, size) ∈ y.live ∧ ptr.toNat ≤ address.toNat ∧
      address.toNat < ptr.toNat + max size.toNat (y.heap.size (ptr - heapHeaderSize)).toNat

/-- After `heap_init`, whatever was in memory and in the variables before. -/
def boot (arena : HeapArena) (h : Heap) : HeapRun where
  heap := heapInit arena h

end HeapRun

/-- The heap as a transition system. -/
def heapSystem (arena : HeapArena) : TransitionSystem HeapRun HeapOp where
  enabled := HeapRun.Enabled
  step := HeapRun.step arena

/-! ## The invariant of runs -/

/-- The heap is a list of blocks, and the allocations are what is in use. -/
structure HeapRun.Inv (arena : HeapArena) (y : HeapRun) (blocks : List Block) : Prop where
  represents : y.heap.Represents arena blocks
  separated : Separated blocks
  nodup : (y.live.map Prod.fst).Nodup
  live : ∀ ptr size, (ptr, size) ∈ y.live → ∃ o b, (o, b) ∈ inUse 32 0 blocks ∧
    ptr = arena.address (o + 32) ∧ size.toNat ≤ b.size
  complete : ∀ o b, (o, b) ∈ inUse 32 0 blocks → ∃ size, (arena.address (o + 32), size) ∈ y.live

namespace HeapRun.Inv

variable {arena : HeapArena} {y : HeapRun} {blocks : List Block}

theorem boot (arena : HeapArena) (h : Heap) :
    (HeapRun.boot arena h).Inv arena [⟨65504, false⟩] where
  represents := heapInit_represents arena h
  separated := isChain_singleton _
  nodup := nodup_nil
  live := nofun
  complete := nofun

/-- The payload of a block lies in the arena. -/
theorem payload_le (hinv : y.Inv arena blocks) (hmem : (o, b) ∈ placed 32 0 blocks) :
    o + (32 + b.size) ≤ heapArenaSize := (hinv.represents.linked.fields hmem).1

/-- A pointer belongs to one block. -/
theorem offset_eq (hinv : y.Inv arena blocks) {o' : ℕ} {c : Block}
    (hmem : (o, b) ∈ placed 32 0 blocks) (hmem' : (o', c) ∈ placed 32 0 blocks)
    (heq : arena.address (o + 32) = arena.address (o' + 32)) : o = o' ∧ b = c := by
  have hle := hinv.payload_le hmem
  have hle' := hinv.payload_le hmem'
  have hoffset := arena.address_inj (by omega) (by omega) heq
  rcases apart_of_mem_placed hmem hmem' with hsame | hbehind | hbefore
  · exact hsame
  · omega
  · omega

/-- **`kmalloc`** returns a null pointer, or a pointer to a block of its own. -/
theorem kmalloc (hinv : y.Inv arena blocks) (size : Word) :
    ∃ ptr h' blocks', Batos.kmalloc y.heap size = some (ptr, h') ∧
      HeapRun.Inv arena ⟨h', if ptr = 0 then y.live else y.live ++ [(ptr, size)]⟩ blocks' := by
  rcases kmalloc_cases hinv.represents size with
    ⟨heq, -⟩ | ⟨pre, b, post, h', rfl, hsize, haligned, -, hfits, heq, hr⟩
  · refine ⟨0, y.heap, blocks, heq, ?_⟩
    rw [if_pos rfl]
    exact hinv
  have hmem : (extent 32 pre, b) ∈ placed 32 0 (pre ++ b :: post) := mem_placed_split
  have hle := hinv.payload_le hmem
  have hne : arena.address (extent 32 pre + 32) ≠ 0 := arena.address_ne_zero (by omega)
  refine ⟨_, h', pre ++ carve 32 32 (alignUpSafe size).toNat b ++ post, heq, ?_⟩
  rw [if_neg hne]
  -- the blocks in use before, and the new one
  have hold : inUse 32 0 (pre ++ b :: post) =
      inUse 32 0 pre ++ inUse 32 (extent 32 pre + (32 + b.size)) post := by
    rw [inUse_append, inUse_cons_of_free hfits.1, Nat.zero_add]
  have hnew : ∀ o c, (o, c) ∈ inUse 32 0 (pre ++ carve 32 32 (alignUpSafe size).toNat b ++ post) ↔
      (o = extent 32 pre ∧ c = ⟨granted 32 32 (alignUpSafe size).toNat b, true⟩) ∨
        (o, c) ∈ inUse 32 0 (pre ++ b :: post) := by
    intro o c
    rw [inUse_carve hfits, hold]
    simp only [mem_append, mem_cons, Prod.mk.injEq]
    tauto
  refine ⟨hr, hinv.separated.carve hfits, ?_, fun ptr n hlive => ?_, fun o c hc => ?_⟩
  · show ((y.live ++ [(arena.address (extent 32 pre + 32), size)]).map Prod.fst).Nodup
    rw [map_append, map_singleton, nodup_append]
    refine ⟨hinv.nodup, nodup_singleton _, ?_⟩
    rintro ptr hptr _ hsame rfl
    rw [mem_singleton] at hsame
    obtain ⟨⟨ptr, n⟩, hlive, rfl⟩ := mem_map.mp hptr
    obtain ⟨o, c, hc, heq', -⟩ := hinv.live _ _ hlive
    obtain ⟨hplaced, hused⟩ := mem_inUse.mp hc
    obtain ⟨-, rfl⟩ := hinv.offset_eq hplaced hmem (heq'.symm.trans hsame)
    rw [hfits.1] at hused
    cases hused
  · rcases mem_append.mp hlive with hlive | hlive
    · obtain ⟨o, c, hc, heq', hn⟩ := hinv.live ptr n hlive
      exact ⟨o, c, (hnew o c).mpr (.inr hc), heq', hn⟩
    · rw [mem_singleton, Prod.mk.injEq] at hlive
      obtain ⟨rfl, rfl⟩ := hlive
      refine ⟨_, _, (hnew _ _).mpr (.inl ⟨rfl, rfl⟩), rfl, ?_⟩
      exact (alignUpSafe_spec hsize haligned).2.trans (request_le_granted hfits)
  · rcases (hnew o c).mp hc with ⟨rfl, rfl⟩ | hc
    · exact ⟨size, mem_append_right _ mem_cons_self⟩
    · obtain ⟨n, hlive⟩ := hinv.complete o c hc
      exact ⟨n, mem_append_left _ hlive⟩

/-- **`kfree`** ends the allocation at the pointer, if there is one. -/
theorem kfree (hinv : y.Inv arena blocks) (ptr : Word) :
    ∃ h' blocks', Batos.kfree arena y.heap ptr = some h' ∧
      HeapRun.Inv arena ⟨h', y.live.filter fun allocation => allocation.1 ≠ ptr⟩ blocks' := by
  have hnodup : ((y.live.filter fun allocation => allocation.1 ≠ ptr).map Prod.fst).Nodup :=
    hinv.nodup.sublist (List.filter_sublist.map Prod.fst)
  have hkeeps : ∀ p n, (p, n) ∈ (y.live.filter fun allocation => allocation.1 ≠ ptr) ↔
      (p, n) ∈ y.live ∧ p ≠ ptr := by
    intro p n
    rw [mem_filter, decide_eq_true_eq]
  rcases kfree_cases hinv.represents ptr with
    ⟨heq, hnone⟩ | ⟨pre, b, post, h', rfl, hused, rfl, heq, hr⟩
  · refine ⟨y.heap, blocks, heq, hinv.represents, hinv.separated, hnodup, fun p n hlive => ?_,
      fun o b hb => ?_⟩
    · exact hinv.live p n ((hkeeps p n).mp hlive).1
    · obtain ⟨n, hlive⟩ := hinv.complete o b hb
      exact ⟨n, (hkeeps _ n).mpr ⟨hlive, hnone o b hb⟩⟩
  obtain ⟨hsep, hnew⟩ := release_spec 32 hinv.separated
  refine ⟨h', _, heq, hr, hsep, hnodup, fun p n hlive => ?_, fun o c hc => ?_⟩
  · obtain ⟨hlive, hne⟩ := (hkeeps p n).mp hlive
    obtain ⟨o, c, hc, rfl, hn⟩ := hinv.live p n hlive
    refine ⟨o, c, ?_, rfl, hn⟩
    rw [inUse_split_of_used hused, mem_append, mem_cons, Prod.mk.injEq] at hc
    rw [hnew, mem_append]
    rcases hc with hfront | ⟨rfl, rfl⟩ | hbehind
    · exact .inl hfront
    · exact absurd rfl hne
    · exact .inr hbehind
  · rw [hnew, mem_append] at hc
    have hc' : (o, c) ∈ inUse 32 0 (pre ++ b :: post) := by
      rw [inUse_split_of_used hused, mem_append, mem_cons]
      exact hc.imp id .inr
    obtain ⟨n, hlive⟩ := hinv.complete o c hc'
    refine ⟨n, (hkeeps _ n).mpr ⟨hlive, fun hsame => ?_⟩⟩
    obtain ⟨rfl, -⟩ := hinv.offset_eq (mem_inUse.mp hc').1 mem_placed_split hsame
    -- no other block starts where the freed one does
    rcases hc with hfront | hbehind
    · have hbounds := (bounds_of_mem_placed (mem_inUse.mp hfront).1).2
      omega
    · have hbounds := (bounds_of_mem_placed (mem_inUse.mp hbehind).1).1
      omega

/-- A client writes to its allocation. -/
theorem write (hinv : y.Inv arena blocks) {address : Word} {byte : BitVec 8}
    (henabled : y.Enabled (.write address byte)) :
    (y.step arena (.write address byte)).Inv arena blocks := by
  obtain ⟨ptr, size, hlive, hlow, hhigh⟩ := henabled
  obtain ⟨o, b, hb, rfl, hsize⟩ := hinv.live ptr size hlive
  have hmem := (mem_inUse.mp hb).1
  have hle := hinv.payload_le hmem
  have hlength : heapArenaSize = 65536 := rfl
  have harena := arena.fits
  have hgranted : (y.heap.size (arena.address (o + 32) - heapHeaderSize)).toNat = b.size := by
    have hheader : arena.address (o + 32) - heapHeaderSize = arena.address o := by
      rw [← arena.address_add]
      exact BitVec.add_sub_cancel _ _
    rw [hheader, hinv.represents.linked.toNat_size hmem]
  rw [hgranted, arena.toNat_address (by omega)] at hhigh
  rw [arena.toNat_address (by omega)] at hlow
  obtain ⟨x, hx⟩ : ∃ x, address.toNat = arena.base.toNat + x :=
    ⟨address.toNat - arena.base.toNat, by omega⟩
  have haddress : address = arena.address x := by
    apply BitVec.eq_of_toNat_eq
    rw [hx, arena.toNat_address (by omega)]
  rw [haddress]
  exact { hinv with represents := hinv.represents.write hmem (by omega) byte }

/-- **Every operation keeps the heap a list of blocks.** -/
theorem step (hinv : y.Inv arena blocks) {op : HeapOp} (henabled : y.Enabled op) :
    ∃ blocks', (y.step arena op).Inv arena blocks' := by
  cases op with
  | kmalloc size =>
      obtain ⟨ptr, h', blocks', heq, hinv'⟩ := hinv.kmalloc size
      rw [HeapRun.step, heq]
      exact ⟨blocks', hinv'⟩
  | kfree ptr =>
      obtain ⟨h', blocks', heq, hinv'⟩ := hinv.kfree ptr
      rw [HeapRun.step, heq]
      exact ⟨blocks', hinv'⟩
  | write address byte => exact ⟨blocks, hinv.write henabled⟩

end HeapRun.Inv

theorem heapRun_inv {y : HeapRun} (hy : (heapSystem arena).Reachable (HeapRun.boot arena h) y) :
    ∃ blocks, y.Inv arena blocks :=
  hy.induction (fun y => ∃ blocks, y.Inv arena blocks)
    (fun _ _ ⟨_, hinv⟩ henabled => hinv.step henabled) ⟨_, .boot arena h⟩

/-! ## Allocations do not overlap -/

/-- The blocks that are found by following the links. -/
inductive Heap.Visits (h : Heap) : Word → Prop
  | first : h.firstBlock ≠ 0 → h.Visits h.firstBlock
  | next {block : Word} : h.Visits block → h.next block ≠ 0 → h.Visits (h.next block)

/-- The links lead to the blocks of the list. -/
theorem Heap.Linked.placed_of_visits {blocks : List Block} (hl : h.Linked arena blocks)
    {block : Word} (hvisits : h.Visits block) :
    ∃ o b, (o, b) ∈ placed 32 0 blocks ∧ block = arena.address o := by
  induction hvisits with
  | first _ =>
      have hne : blocks ≠ [] := by
        rintro rfl
        cases hl.fills
      obtain ⟨b, blocks, rfl⟩ := exists_cons_of_ne_nil hne
      exact ⟨0, b, mem_cons_self, by rw [hl.first, arena.address_zero]⟩
  | next _ hnext ih =>
      obtain ⟨o, b, hmem, rfl⟩ := ih
      obtain ⟨pre, post, rfl, rfl⟩ := split_of_mem_placed hmem
      rw [Nat.zero_add] at hnext ⊢
      rw [hl.next_eq] at hnext ⊢
      have hpost : post ≠ [] := fun hnil => hnext (hl.link_eq_zero_iff.mpr hnil)
      obtain ⟨c, post, rfl⟩ := exists_cons_of_ne_nil hpost
      refine ⟨extent 32 pre + (32 + b.size), c, ?_, if_neg fun hend =>
        hpost (hl.end_eq_iff.mp hend)⟩
      rw [placed_append, Nat.zero_add]
      exact mem_append_right _ (mem_cons_of_mem _ mem_cons_self)

/-- The addresses of bytes from a pointer on. -/
def byteRange (ptr : Word) (length : ℕ) : Set ℕ := Set.Ico ptr.toNat (ptr.toNat + length)

theorem byteRange_disjoint {p q : Word} {n m : ℕ}
    (h : p.toNat + n ≤ q.toNat ∨ q.toNat + m ≤ p.toNat) :
    Disjoint (byteRange p n) (byteRange q m) := by
  rw [Set.disjoint_left]
  rintro x ⟨hp, hn⟩ ⟨hq, hm⟩
  omega

/-- The bytes asked for are in the arena, aligned, and not in a header. -/
structure Heap.Grants (arena : HeapArena) (h : Heap) (ptr size : Word) : Prop where
  aligned : 16 ∣ ptr.toNat
  inside : byteRange ptr size.toNat ⊆ byteRange arena.base heapArenaSize
  headers : ∀ block, h.Visits block → Disjoint (byteRange ptr size.toNat) (byteRange block 32)

namespace HeapRun.Inv

variable {arena : HeapArena} {y : HeapRun} {blocks : List Block} (hinv : y.Inv arena blocks)

include hinv

theorem grants {ptr size : Word} (hlive : (ptr, size) ∈ y.live) : y.heap.Grants arena ptr size := by
  obtain ⟨o, b, hb, rfl, hsize⟩ := hinv.live ptr size hlive
  have hmem := (mem_inUse.mp hb).1
  have hle := hinv.payload_le hmem
  have hval := arena.toNat_address (x := o + 32) (by omega)
  refine ⟨?_, ?_, fun block hvisits => ?_⟩
  · rw [hval]
    obtain ⟨pre, post, rfl, rfl⟩ := split_of_mem_placed hmem
    rw [Nat.zero_add]
    exact Nat.dvd_add arena.aligned (Nat.dvd_add hinv.represents.linked.offset.1 (by decide))
  · rintro x ⟨hlow, hhigh⟩
    rw [hval] at hlow hhigh
    exact ⟨by omega, by omega⟩
  · obtain ⟨o', c, hc, rfl⟩ := hinv.represents.linked.placed_of_visits hvisits
    have hle' := hinv.payload_le hc
    apply byteRange_disjoint
    rw [hval, arena.toNat_address (by omega)]
    rcases apart_of_mem_placed hmem hc with ⟨rfl, -⟩ | hbehind | hbefore
    · omega
    · omega
    · omega

/-- Allocations have no byte in common. -/
theorem pairwise : y.live.Pairwise fun a a' =>
    Disjoint (byteRange a.1 a.2.toNat) (byteRange a'.1 a'.2.toNat) := by
  have hnodup := hinv.nodup
  rw [List.Nodup, pairwise_map] at hnodup
  refine hnodup.imp_of_mem fun {a a'} ha ha' hne => ?_
  obtain ⟨o, b, hb, hptr, hsize⟩ := hinv.live a.1 a.2 ha
  obtain ⟨o', c, hc, hptr', hsize'⟩ := hinv.live a'.1 a'.2 ha'
  have hmem := (mem_inUse.mp hb).1
  have hmem' := (mem_inUse.mp hc).1
  have hle := hinv.payload_le hmem
  have hle' := hinv.payload_le hmem'
  apply byteRange_disjoint
  rw [hptr, hptr'] at hne ⊢
  rw [arena.toNat_address (by omega), arena.toNat_address (by omega)]
  rcases apart_of_mem_placed hmem hmem' with ⟨rfl, -⟩ | hbehind | hbefore
  · exact absurd rfl hne
  · omega
  · omega

end HeapRun.Inv

/-- **Heap allocations never overlap.**  In every state of every run, each allocation lies
in the arena, aligned and clear of all headers, and no two have a byte in common.  All calls
return; what `kmalloc` returns beside a null pointer is an allocation of that kind in the
heap it leaves. -/
theorem heap_allocations_apart (arena : HeapArena) (h : Heap) {y : HeapRun}
    (hy : (heapSystem arena).Reachable (HeapRun.boot arena h) y) :
    ((∀ ptr size, (ptr, size) ∈ y.live → y.heap.Grants arena ptr size) ∧
        y.live.Pairwise fun a a' => Disjoint (byteRange a.1 a.2.toNat)
          (byteRange a'.1 a'.2.toNat)) ∧
      (∀ size, ∃ ptr h', kmalloc y.heap size = some (ptr, h') ∧
        (ptr ≠ 0 → h'.Grants arena ptr size ∧ ∀ ptr' size', (ptr', size') ∈ y.live →
          Disjoint (byteRange ptr' size'.toNat) (byteRange ptr size.toNat))) ∧
      ∀ ptr, (kfree arena y.heap ptr).isSome = true := by
  obtain ⟨blocks, hinv⟩ := heapRun_inv hy
  refine ⟨⟨fun _ _ hlive => hinv.grants hlive, hinv.pairwise⟩, fun size => ?_, fun ptr => ?_⟩
  · obtain ⟨ptr, h', blocks', heq, hinv'⟩ := hinv.kmalloc size
    refine ⟨ptr, h', heq, fun hne => ?_⟩
    rw [if_neg hne] at hinv'
    have hapart := hinv'.pairwise
    rw [pairwise_append] at hapart
    refine ⟨hinv'.grants (mem_append_right _ mem_cons_self), fun ptr' size' hlive => ?_⟩
    exact hapart.2.2 (ptr', size') hlive (ptr, size) mem_cons_self
  · obtain ⟨h', blocks', heq, -⟩ := hinv.kfree ptr
    rw [heq]
    rfl

/-- An arena at 1 MiB. -/
def demoArena : HeapArena where
  base := 0x100000
  base_ne := by decide
  aligned := by decide
  fits := by decide

/-- Memory full of zeros. -/
def demoHeap : Heap where
  memory := fun _ => 0

/-- A client asks for 40 bytes and writes the last of them, and then for 100 more. -/
def demoHeapOps : List HeapOp := [.kmalloc 40, .write 0x100047 0xFF, .kmalloc 100]

theorem demoHeapOps_live :
    ((heapSystem demoArena).run (.boot demoArena demoHeap) demoHeapOps).live =
      [(0x100020, 40), (0x100070, 100)] := by
  decide +kernel

theorem heap_allocations_apart_demo :
    Disjoint (byteRange 0x100020 40) (byteRange 0x100070 100) := by
  have hallocated : ((heapSystem demoArena).run (.boot demoArena demoHeap) [.kmalloc 40]).live =
      [(0x100020, 40)] := by
    decide +kernel
  have hreachable : (heapSystem demoArena).Reachable (.boot demoArena demoHeap)
      ((heapSystem demoArena).run (.boot demoArena demoHeap) demoHeapOps) := by
    refine ⟨demoHeapOps, ⟨trivial, ⟨0x100020, 40, ?_, by decide, ?_⟩, trivial, trivial⟩, rfl⟩
    swap
    · exact Nat.lt_of_lt_of_le (by decide) (Nat.add_le_add_left (Nat.le_max_left _ _) _)
    rw [show (heapSystem demoArena).step _ _ = (heapSystem demoArena).run _ [.kmalloc 40] from rfl,
      hallocated]
    exact mem_cons_self
  have hapart := (heap_allocations_apart demoArena _ hreachable).1.2
  rw [demoHeapOps_live, pairwise_cons] at hapart
  exact hapart.1 (0x100070, 100) mem_cons_self

/-! ## Everything freed -/

/-- The heap is one free block without neighbours. -/
structure Heap.Whole (arena : HeapArena) (h : Heap) : Prop where
  first : h.firstBlock = arena.base
  size : h.size arena.base = BitVec.ofNat 64 (heapArenaSize - 32)
  state : h.state arena.base = heapBlockFree
  previous : h.previous arena.base = 0
  next : h.next arena.base = 0
  allocatedBytes : h.allocatedBytes = 0
  freeBytes : h.freeBytes = BitVec.ofNat 64 (heapArenaSize - 32)

/-- **When everything has been freed, the heap is what it was after `heap_init`.** -/
theorem heap_restored (arena : HeapArena) (h : Heap) {y : HeapRun}
    (hy : (heapSystem arena).Reachable (HeapRun.boot arena h) y) (hfreed : y.live = []) :
    y.heap.Whole arena := by
  obtain ⟨blocks, hinv⟩ := heapRun_inv hy
  have hunused : inUse 32 0 blocks = [] := by
    rw [eq_nil_iff_forall_not_mem]
    rintro ⟨o, b⟩ hb
    obtain ⟨size, hlive⟩ := hinv.complete o b hb
    rw [hfreed] at hlive
    cases hlive
  have hr := hinv.represents
  have hne : blocks ≠ [] := by
    rintro rfl
    cases hr.linked.fills
  obtain ⟨size, rfl⟩ := eq_singleton_of_unused hinv.separated hunused hne
  have hsize : size = heapArenaSize - 32 := by
    have hfills := hr.linked.fills
    rw [extent_cons, extent_nil] at hfills
    dsimp only at hfills
    omega
  subst hsize
  have hl : y.heap.Linked arena ([] ++ ⟨heapArenaSize - 32, false⟩ :: []) := hr.linked
  have hsize := hl.size_eq
  have hstate := hl.state_eq
  have hprevious := hl.previous_eq
  have hnext := hl.next_eq
  rw [extent_nil, arena.address_zero] at hsize hstate hprevious hnext
  exact ⟨hl.first, hsize, hstate, hprevious, hnext.trans arena.link_end, hr.allocated, hr.free⟩

/-- Two allocations are freed in the order in which they were made. -/
theorem heap_restored_demo :
    ((heapSystem demoArena).run (.boot demoArena demoHeap)
      [.kmalloc 40, .kmalloc 100, .kfree 0x100020, .kfree 0x100070]).heap.Whole demoArena := by
  have hadmissible : (heapSystem demoArena).Admissible (.boot demoArena demoHeap)
      [.kmalloc 40, .kmalloc 100, .kfree 0x100020, .kfree 0x100070] :=
    ⟨trivial, trivial, trivial, trivial, trivial⟩
  refine heap_restored demoArena demoHeap ⟨_, hadmissible, rfl⟩ ?_
  decide +kernel

end Batos
