import Mathlib.Algebra.BigOperators.Group.List.Basic
import Mathlib.Data.List.Chain
import Mathlib.Tactic.Ring

/-!
# Lists of blocks that tile an arena

An arena is cut into blocks, each a header of fixed length followed by a payload.  Blocks
lie next to each other, so that the list of their sizes says where each of them is
(`placed`) and how long the arena is (`extent`).

To grant a request, a free block is carved (`carve`): what is left over becomes a block of
its own if it is long enough.  A block that is given back is merged with its neighbours
where they are free (`release`).  Both keep the length of the arena, and change the blocks
in use only as they are meant to (`inUse_carve`, `inUse_release`).  In between no two free
blocks are neighbours (`Separated`), so that an arena of which nothing is in use is one
block again (`eq_singleton_of_unused`).
-/

namespace Batos

open List

variable {used : Bool} {o unit : ℕ}

/-- A block: the length of its payload, and whether it is in use. -/
structure Block where
  size : ℕ
  used : Bool
deriving DecidableEq, Repr

namespace Block

/-- The length of an arena that is cut into the blocks. -/
def extent (hdr : ℕ) (blocks : List Block) : ℕ := (blocks.map fun b => hdr + b.size).sum

/-- The payload bytes of the blocks that are in use, or that are free. -/
def bytes (used : Bool) (blocks : List Block) : ℕ :=
  (blocks.map fun b => if b.used = used then b.size else 0).sum

/-- The blocks with their offsets, the first at the start given. -/
def placed (hdr : ℕ) : ℕ → List Block → List (ℕ × Block)
  | _, [] => []
  | start, b :: blocks => (start, b) :: placed hdr (start + (hdr + b.size)) blocks

/-- The blocks in use with their offsets. -/
def inUse (hdr start : ℕ) (blocks : List Block) : List (ℕ × Block) :=
  (placed hdr start blocks).filter fun place => place.2.used

/-- No two free blocks are neighbours. -/
def Separated (blocks : List Block) : Prop :=
  blocks.IsChain fun b c => b.used = true ∨ c.used = true

/-- All payloads are multiples of a unit, and none is empty. -/
def Regular (unit : ℕ) (blocks : List Block) : Prop := ∀ b ∈ blocks, 0 < b.size ∧ unit ∣ b.size

variable {hdr start : ℕ} {b c : Block} {blocks pre post : List Block}

/-! ## Places -/

@[simp]
theorem extent_nil : extent hdr [] = 0 := rfl

@[simp]
theorem extent_cons : extent hdr (b :: blocks) = hdr + b.size + extent hdr blocks := rfl

/-- Extents add up. -/
@[simp]
theorem extent_append : extent hdr (pre ++ post) = extent hdr pre + extent hdr post := by
  rw [extent, map_append, sum_append]
  rfl

theorem extent_concat : extent hdr (pre ++ [b]) = extent hdr pre + (hdr + b.size) := by
  rw [extent_append, extent_cons, extent_nil, Nat.add_zero]

@[simp]
theorem bytes_cons :
    bytes used (b :: blocks) = (if b.used = used then b.size else 0) + bytes used blocks := rfl

@[simp]
theorem bytes_append : bytes used (pre ++ post) = bytes used pre + bytes used post := by
  rw [bytes, map_append, sum_append]
  rfl

/-- Blocks take at least the bytes in them. -/
theorem bytes_le_extent (hdr : ℕ) (used : Bool) (blocks : List Block) :
    bytes used blocks ≤ extent hdr blocks := by
  induction blocks with
  | nil => exact Nat.le_refl 0
  | cons b blocks ih =>
      rw [bytes_cons, extent_cons]
      split_ifs <;> omega

/-- The second part begins where the first one ends. -/
@[simp]
theorem placed_append :
    placed hdr start (pre ++ post) =
      placed hdr start pre ++ placed hdr (start + extent hdr pre) post := by
  induction pre generalizing start with
  | nil => rfl
  | cons b pre ih =>
      rw [cons_append, placed, ih, placed, extent_cons, cons_append, Nat.add_assoc start]

theorem inUse_append :
    inUse hdr start (pre ++ post) = inUse hdr start pre ++ inUse hdr
      (start + extent hdr pre) post := by
  rw [inUse, placed_append, filter_append]
  rfl

theorem inUse_cons_of_used (h : b.used = true) :
    inUse hdr start (b :: blocks) = (start, b) :: inUse hdr (start + (hdr + b.size)) blocks := by
  rw [inUse, placed, filter_cons, if_pos h]
  rfl

theorem inUse_cons_of_free (h : b.used = false) :
    inUse hdr start (b :: blocks) = inUse hdr (start + (hdr + b.size)) blocks := by
  rw [inUse, placed, filter_cons_of_neg (by simp [h])]
  rfl

/-- The blocks in use before and behind one of them. -/
theorem inUse_split_of_used (h : b.used = true) :
    inUse hdr 0 (pre ++ b :: post) =
      inUse hdr 0 pre ++ (extent hdr pre, b) :: inUse hdr (extent hdr pre + (hdr + b.size))
        post := by
  rw [inUse_append, inUse_cons_of_used h, Nat.zero_add]

/-- The blocks in use are those placed and marked. -/
theorem mem_inUse {place : ℕ × Block} :
    place ∈ inUse hdr start blocks ↔ place ∈ placed hdr start blocks ∧ place.2.used = true :=
  mem_filter

/-- A block lies within the arena. -/
theorem bounds_of_mem_placed (h : (o, b) ∈ placed hdr start blocks) :
    start ≤ o ∧ o + (hdr + b.size) ≤ start + extent hdr blocks := by
  induction blocks generalizing start with
  | nil => cases h
  | cons c blocks ih =>
      rw [extent_cons]
      rcases mem_cons.mp h with heq | hmem
      · rw [Prod.mk.injEq] at heq
        obtain ⟨rfl, rfl⟩ := heq
        omega
      · have hbounds := ih hmem
        omega

/-- A block at an offset has blocks in front of it and behind it. -/
theorem split_of_mem_placed (h : (o, b) ∈ placed hdr start blocks) :
    ∃ pre post, blocks = pre ++ b :: post ∧ o = start + extent hdr pre := by
  induction blocks generalizing start with
  | nil => cases h
  | cons c blocks ih =>
      rcases mem_cons.mp h with heq | hmem
      · rw [Prod.mk.injEq] at heq
        obtain ⟨rfl, rfl⟩ := heq
        exact ⟨[], blocks, rfl, rfl⟩
      · obtain ⟨pre, post, rfl, rfl⟩ := ih hmem
        exact ⟨c :: pre, post, rfl, by rw [extent_cons, Nat.add_assoc]⟩

theorem exists_mem_placed (hdr start : ℕ) (h : b ∈ blocks) :
    ∃ o, (o, b) ∈ placed hdr start blocks := by
  induction blocks generalizing start with
  | nil => cases h
  | cons c blocks ih =>
      rcases mem_cons.mp h with rfl | hmem
      · exact ⟨start, mem_cons_self⟩
      · obtain ⟨o, ho⟩ := ih (start + (hdr + c.size)) hmem
        exact ⟨o, mem_cons_of_mem _ ho⟩

/-- A block is placed behind those before it. -/
theorem mem_placed_split : (extent hdr pre, b) ∈ placed hdr 0 (pre ++ b :: post) := by
  rw [placed_append, Nat.zero_add]
  exact mem_append_right _ mem_cons_self

/-- Two blocks are the same, or one lies behind the other. -/
theorem apart_of_mem_placed {o' : ℕ} (h : (o, b) ∈ placed hdr start blocks)
    (h' : (o', c) ∈ placed hdr start blocks) :
    (o = o' ∧ b = c) ∨ o + (hdr + b.size) ≤ o' ∨ o' + (hdr + c.size) ≤ o := by
  induction blocks generalizing start with
  | nil => cases h
  | cons d blocks ih =>
      rcases mem_cons.mp h with heq | hmem <;> rcases mem_cons.mp h' with heq' | hmem'
      · rw [Prod.mk.injEq] at heq heq'
        obtain ⟨rfl, rfl⟩ := heq
        obtain ⟨rfl, rfl⟩ := heq'
        exact .inl ⟨rfl, rfl⟩
      · rw [Prod.mk.injEq] at heq
        obtain ⟨rfl, rfl⟩ := heq
        exact .inr (.inl (bounds_of_mem_placed hmem').1)
      · rw [Prod.mk.injEq] at heq'
        obtain ⟨rfl, rfl⟩ := heq'
        exact .inr (.inr (bounds_of_mem_placed hmem).1)
      · exact ih hmem hmem'

/-! ## Neighbours -/

/-- A list is separated if its parts are and do not meet in free blocks. -/
theorem separated_append :
    Separated (pre ++ post) ↔ Separated pre ∧ Separated post ∧
      ∀ b ∈ pre.getLast?, ∀ c ∈ post.head?, b.used = true ∨ c.used = true :=
  isChain_append

theorem separated_cons :
    Separated (b :: blocks) ↔
      Separated blocks ∧ ∀ c ∈ blocks.head?, b.used = true ∨ c.used = true :=
  List.isChain_cons.trans And.comm

/-! ## Units -/

theorem Regular.append : Regular start (pre ++ post) ↔ Regular start pre ∧ Regular start post :=
  forall_mem_append

theorem Regular.cons : Regular start (b :: blocks) ↔ (0 < b.size ∧ start ∣ b.size) ∧
    Regular start blocks :=
  forall_mem_cons

/-- Regular blocks end at multiples of the unit. -/
theorem Regular.dvd_extent (h : Regular unit blocks) (hhdr : unit ∣ hdr) :
    unit ∣ extent hdr blocks := by
  induction blocks with
  | nil => exact Nat.dvd_zero unit
  | cons b blocks ih =>
      rw [Regular.cons] at h
      rw [extent_cons]
      exact Nat.dvd_add (Nat.dvd_add hhdr h.1.2) (ih h.2)

/-- Every block takes its part of the arena. -/
theorem Regular.length_le (h : Regular unit blocks) (hdr : ℕ) :
    blocks.length * (hdr + unit) ≤ extent hdr blocks := by
  induction blocks with
  | nil => rw [length_nil, Nat.zero_mul]; exact Nat.zero_le _
  | cons b blocks ih =>
      rw [Regular.cons] at h
      have hunit := Nat.le_of_dvd h.1.1 h.1.2
      have hrest := ih h.2
      rw [length_cons, Nat.add_mul, extent_cons]
      omega

/-! ## Carving -/

/-- The block is free and long enough. -/
def Fits (request : ℕ) (b : Block) : Prop := b.used = false ∧ request ≤ b.size

/-- What becomes of a free block when a part of it is granted. -/
def carve (hdr minSplit request : ℕ) (b : Block) : List Block :=
  if hdr + minSplit ≤ b.size - request then [⟨request, true⟩, ⟨b.size - request - hdr, false⟩]
  else [⟨b.size, true⟩]

/-- How much of a free block is granted. -/
def granted (hdr minSplit request : ℕ) (b : Block) : ℕ :=
  if hdr + minSplit ≤ b.size - request then request else b.size

section Carve

variable {minSplit request : ℕ} (h : b.Fits request)

include h

/-- Nobody gets less than they asked for. -/
theorem request_le_granted : request ≤ granted hdr minSplit request b := by
  rw [granted]
  split_ifs
  · exact Nat.le_refl request
  · exact h.2

/-- **Carving** puts one more block in use and moves no other. -/
theorem inUse_carve :
    inUse hdr 0 (pre ++ carve hdr minSplit request b ++ post) =
      inUse hdr 0 pre ++
        (extent hdr pre, ⟨granted hdr minSplit request b, true⟩) ::
          inUse hdr (extent hdr pre + (hdr + b.size)) post := by
  obtain ⟨hfree, hfits⟩ := h
  rw [append_assoc, inUse_append, Nat.zero_add, carve, granted]
  split_ifs with hsplit
  · have hend : extent hdr pre + (hdr + request) + (hdr + (b.size - request - hdr)) =
        extent hdr pre + (hdr + b.size) := by omega
    rw [cons_append, singleton_append, inUse_cons_of_used rfl, inUse_cons_of_free rfl]
    dsimp only
    rw [hend]
  · rw [singleton_append, inUse_cons_of_used rfl]

/-- What is left of a block is followed by a block in use. -/
theorem Separated.carve (hsep : Separated (pre ++ b :: post)) :
    Separated (pre ++ carve hdr minSplit request b ++ post) := by
  rw [separated_append, separated_cons] at hsep
  obtain ⟨hpre, ⟨hpost, hnext⟩, -⟩ := hsep
  -- the neighbours of a free block are in use
  have hused : ∀ c ∈ post.head?, c.used = true := by
    intro c hc
    simpa [h.1] using hnext c hc
  rw [append_assoc, separated_append, Block.carve]
  split_ifs
  · refine ⟨hpre, ?_, fun p _ c hc => ?_⟩
    · rw [cons_append, singleton_append, separated_cons, separated_cons]
      exact ⟨⟨hpost, fun c hc => .inr (hused c hc)⟩, fun c _ => .inl rfl⟩
    · cases hc
      exact .inr rfl
  · refine ⟨hpre, ?_, fun p _ c hc => ?_⟩
    · rw [singleton_append, separated_cons]
      exact ⟨hpost, fun c _ => .inl rfl⟩
    · cases hc
      exact .inr rfl

end Carve

/-! ## Giving back -/

/-- A free block takes its successor in, if that is free. -/
def mergeNext (hdr : ℕ) (b : Block) : List Block → Block × List Block
  | [] => (b, [])
  | c :: post => if c.used then (b, c :: post) else (⟨b.size + (hdr + c.size), b.used⟩, post)

/-- A free block is taken in by its predecessor, if that is free. -/
def mergePrevious (hdr : ℕ) (pre : List Block) (b : Block) : List Block × Block :=
  match pre.getLast? with
  | none => (pre, b)
  | some p => if p.used then (pre, b) else (pre.dropLast, ⟨p.size + (hdr + b.size), p.used⟩)

/-- What becomes of the blocks when one of them is given back. -/
def release (hdr : ℕ) (pre : List Block) (b : Block) (post : List Block) : List Block :=
  match mergeNext hdr ⟨b.size, false⟩ post with
  | (b, post) =>
      match mergePrevious hdr pre b with
      | (pre, b) => pre ++ b :: post

/-- What a merge with the successor leaves of the blocks behind. -/
theorem mergeNext_spec (hdr : ℕ) (hsep : Separated post) (hfree : b.used = false) :
    ∃ b' post', mergeNext hdr b post = (b', post') ∧ b'.used = false ∧ Separated post' ∧
      (∀ c ∈ post'.head?, c.used = true) ∧ ∀ start,
        inUse hdr (start + (hdr + b'.size)) post' = inUse hdr (start + (hdr + b.size)) post := by
  cases post with
  | nil => exact ⟨b, [], rfl, hfree, hsep, nofun, fun _ => rfl⟩
  | cons c post =>
      cases hc : c.used with
      | true =>
          refine ⟨b, c :: post, by rw [mergeNext, hc]; rfl, hfree, hsep, fun d hd =>
            ?_, fun _ => rfl⟩
          cases hd
          exact hc
      | false =>
          rw [separated_cons] at hsep
          refine ⟨⟨b.size + (hdr + c.size), b.used⟩,
            post, by rw [mergeNext, hc]; rfl, hfree, hsep.1, fun d hd => ?_, fun start => ?_⟩
          · simpa [hc] using hsep.2 d hd
          · rw [inUse_cons_of_free hc]
            congr 1
            dsimp only
            omega

/-- What a merge with the predecessor leaves of the blocks in front. -/
theorem mergePrevious_spec (hdr : ℕ) (hsep : Separated pre) (hfree : b.used = false) :
    ∃ b' pre', mergePrevious hdr pre b = (pre', b') ∧ b'.used = false ∧ Separated pre' ∧
      (∀ c ∈ pre'.getLast?, c.used = true) ∧ inUse hdr 0 pre' = inUse hdr 0 pre ∧
        extent hdr pre' + (hdr + b'.size) = extent hdr pre + (hdr + b.size) := by
  rcases eq_nil_or_concat' pre with rfl | ⟨front, p, rfl⟩
  · exact ⟨b, [], rfl, hfree, hsep, nofun, rfl, rfl⟩
  · rw [mergePrevious, List.getLast?_concat]
    dsimp only
    cases hp : p.used with
    | true =>
        refine ⟨b, _, rfl, hfree, hsep, fun c hc => ?_, rfl, rfl⟩
        rw [List.getLast?_concat] at hc
        cases hc
        exact hp
    | false =>
        rw [separated_append] at hsep
        refine ⟨_, _, rfl, rfl, ?_, fun c hc => ?_, ?_, ?_⟩
        · rw [dropLast_concat]
          exact hsep.1
        · rw [dropLast_concat] at hc
          simpa [hp] using hsep.2.2 c hc p rfl
        · rw [dropLast_concat, inUse_append, inUse_cons_of_free hp]
          exact (append_nil _).symm
        · rw [dropLast_concat, extent_append, extent_cons, extent_nil]
          dsimp only
          omega

/-- **A block that is given back** leaves no free neighbours, and no block in use but itself. -/
theorem release_spec (hdr : ℕ) (hsep : Separated (pre ++ b :: post)) :
    Separated (release hdr pre b post) ∧
      inUse hdr 0 (release hdr pre b post) =
        inUse hdr 0 pre ++ inUse hdr (extent hdr pre + (hdr + b.size)) post := by
  rw [separated_append, separated_cons] at hsep
  obtain ⟨hpre, ⟨hpost, -⟩, -⟩ := hsep
  have hfreed : (⟨b.size, false⟩ : Block).used = false := rfl
  obtain ⟨c, post', hnext, hc, hpost', hhead, hbehind⟩ := mergeNext_spec hdr hpost hfreed
  obtain ⟨d, pre', hprevious, hd, hpre', hlast, hfront, hend⟩ := mergePrevious_spec hdr hpre hc
  have heq : release hdr pre b post = pre' ++ d :: post' := by
    rw [release, hnext]
    dsimp only
    rw [hprevious]
  rw [heq]
  constructor
  · rw [separated_append, separated_cons]
    refine ⟨hpre', ⟨hpost', fun e he => .inr (hhead e he)⟩, fun e he _ _ => .inl (hlast e he)⟩
  · rw [inUse_append, inUse_cons_of_free hd, Nat.zero_add, hfront, hend, hbehind]

/-- An arena of which nothing is in use is one block. -/
theorem eq_singleton_of_unused (hsep : Separated blocks) (hunused : inUse hdr start blocks = [])
    (hne : blocks ≠ []) : ∃ size, blocks = [⟨size, false⟩] := by
  have hfree : ∀ start blocks, inUse hdr start blocks = [] → ∀ b ∈ blocks, b.used = false := by
    intro start blocks
    induction blocks generalizing start with
    | nil => exact fun _ => nofun
    | cons c blocks ih =>
        intro hnone
        cases hc : c.used with
        | true =>
            rw [inUse_cons_of_used hc] at hnone
            cases hnone
        | false =>
            rw [inUse_cons_of_free hc] at hnone
            rw [forall_mem_cons]
            exact ⟨hc, ih _ hnone⟩
  have hall := hfree start blocks hunused
  cases blocks with
  | nil => exact absurd rfl hne
  | cons b rest =>
      cases rest with
      | nil =>
          refine ⟨b.size, ?_⟩
          rw [← hall b mem_cons_self]
      | cons c rest =>
          have hboth := ((separated_cons).mp hsep).2 c rfl
          rw [hall b mem_cons_self, hall c (mem_cons_of_mem b mem_cons_self)] at hboth
          simp at hboth

/-- The first block in use of an arena whose first block is free lies behind that block. -/
theorem head?_inUse_of_free (hsep : Separated (b :: blocks)) (hfree : b.used = false) :
    (inUse hdr start (b :: blocks)).head? = blocks.head?.map (start + (hdr + b.size), ·) := by
  rw [inUse_cons_of_free hfree]
  cases blocks with
  | nil => rfl
  | cons c blocks =>
      have hc : c.used = true := by simpa [hfree] using (separated_cons.mp hsep).2 c rfl
      rw [inUse_cons_of_used hc]
      rfl

/-- **The blocks in use determine the arena**: no two lists that fill it, and in which no free
blocks are neighbours, have the same blocks in use. -/
theorem eq_of_inUse {blocks' : List Block} (hhdr : 0 < hdr) (hsep : Separated blocks)
    (hsep' : Separated blocks') (hextent : extent hdr blocks' = extent hdr blocks)
    (hinUse : inUse hdr start blocks' = inUse hdr start blocks) : blocks' = blocks := by
  -- block by block; a free block ends where the next block in use begins, or with the arena
  induction blocks generalizing blocks' start with
  | nil =>
      cases blocks' with
      | nil => rfl
      | cons c blocks' =>
          rw [extent_cons, extent_nil] at hextent
          omega
  | cons b blocks ih =>
      cases blocks' with
      | nil =>
          rw [extent_cons, extent_nil] at hextent
          omega
      | cons c blocks' =>
          have hhead := congrArg List.head? hinUse
          suffices hbc : c = b by
            subst hbc
            rw [extent_cons, extent_cons, Nat.add_left_cancel_iff] at hextent
            refine congrArg _ (@ih (start + (hdr + c.size)) _ (separated_cons.mp hsep).1
              (separated_cons.mp hsep').1 hextent ?_)
            cases hc : c.used with
            | true =>
                rw [inUse_cons_of_used hc, inUse_cons_of_used hc] at hinUse
                exact (List.cons.inj hinUse).2
            | false => rwa [inUse_cons_of_free hc, inUse_cons_of_free hc] at hinUse
          cases hb : b.used <;> cases hc : c.used
          · rw [head?_inUse_of_free hsep hb, head?_inUse_of_free hsep' hc] at hhead
            have hsize : c.size = b.size := by
              cases blocks <;> cases blocks' <;> simp at hhead hextent <;> omega
            cases b
            cases c
            simp_all
          · rw [head?_inUse_of_free hsep hb, inUse_cons_of_used hc] at hhead
            cases blocks <;> simp at hhead
            omega
          · rw [inUse_cons_of_used hb, head?_inUse_of_free hsep' hc] at hhead
            cases blocks' <;> simp at hhead
            omega
          · rw [inUse_cons_of_used hb, inUse_cons_of_used hc] at hhead
            exact (Prod.mk.inj (Option.some.inj hhead)).2

/-! ## Extents -/

/-- The free extents of an arena: the lengths of the payloads one gets when all neighbouring
free blocks are merged.  The first argument is the extent that is open at this point. -/
def freeExtents (hdr : ℕ) : Option ℕ → List Block → List ℕ
  | none, [] => []
  | some n, [] => [n]
  | none, b :: blocks =>
      if b.used then freeExtents hdr none blocks else freeExtents hdr (some b.size) blocks
  | some n, b :: blocks =>
      if b.used then n :: freeExtents hdr none blocks
      else freeExtents hdr (some (n + (hdr + b.size))) blocks

/-- **Where no free blocks are neighbours**, an extent is the payload of a free block. -/
theorem freeExtents_eq (hdr : ℕ) (hsep : Separated blocks) :
    freeExtents hdr none blocks = (blocks.filter fun b => !b.used).map size := by
  -- an extent that is open in front of blocks the first of which is in use is closed there
  have hopen : ∀ (blocks : List Block), (∀ c ∈ blocks.head?, c.used = true) → ∀ n,
      freeExtents hdr (some n) blocks = n :: freeExtents hdr none blocks := by
    rintro (_ | ⟨c, blocks⟩) hused n
    · rfl
    · rw [freeExtents, freeExtents, if_pos (hused c rfl), if_pos (hused c rfl)]
  induction blocks with
  | nil => rfl
  | cons b blocks ih =>
      rw [separated_cons] at hsep
      rw [freeExtents]
      cases hb : b.used with
      | true => rw [if_pos rfl, filter_cons_of_neg (by simp [hb]), ih hsep.1]
      | false =>
          have hnext : ∀ c ∈ blocks.head?, c.used = true :=
            fun c hc => by simpa [hb] using hsep.2 c hc
          rw [if_neg (by decide), filter_cons_of_pos (by simp [hb]), map_cons, hopen _ hnext,
            ih hsep.1]

end Block

end Batos
