import Batos.Vmm.Rights

/-!
# Page tables as the processor sees them

The processor walks memory.  It consults neither the registry nor the owner of a
table, so whatever lies at the addresses it meets is a page table to it: those of
the boot loader as well as those of `vmm.c`.  The notions here are functions of the
words in memory alone, and serve to compare a hierarchy with a copy of it:

* `tableAt` — the table at a position, that is, under a list of indices;
* `mmuWalk` — the leaf a virtual address leads to, with its level;
* `mmuTranslate` — what a leaf and the entries above it mean for an access;
* `walkDecisions` — what the walk decides at each level, and on which bits;
* `SameTree` — one hierarchy is a copy of another in fresh tables.

A walk depends on the tables it can reach and on nothing else.  `TreeIn` says that
all of them have a property, such as being left alone by an operation.
-/

namespace Batos

/-! ## Positions -/

/-- The table at a position below a table of the given level. -/
def tableAt (memory : Word → Fin 512 → Word) : (level : ℕ) → (p : Word) →
    List (Fin 512) → Option Word
  | _, p, [] => some p
  | level, p, index :: path =>
      (entryChild level (memory p index)).bind fun c => tableAt memory (level - 1) c path

/-- Every table of a hierarchy has the property. -/
def TreeIn (memory : Word → Fin 512 → Word) (level : ℕ) (p : Word) (S : Word → Prop) : Prop :=
  ∀ path q, tableAt memory level p path = some q → S q

section TreeIn

variable {m m' : Word → Fin 512 → Word} {level : ℕ} {p c : Word} {S S' : Word → Prop}

theorem TreeIn.root (h : TreeIn m level p S) : S p := h [] p rfl

theorem treeIn_iff :
    TreeIn m level p S ↔
      S p ∧ ∀ index c, entryChild level (m p index) = some c → TreeIn m (level - 1) c S := by
  refine ⟨fun h => ⟨h.root, fun index c hc path q hq => h (index :: path) q ?_⟩,
    fun h path q hq => ?_⟩
  · rw [tableAt, hc]
    exact hq
  · cases path with
    | nil =>
        obtain rfl := Option.some.inj hq
        exact h.1
    | cons index path =>
        obtain ⟨c, hc, hq⟩ := Option.bind_eq_some_iff.mp hq
        exact h.2 index c hc path q hq

theorem TreeIn.child (h : TreeIn m (level + 1) p S) {index : Fin 512}
    (hc : entryChild (level + 1) (m p index) = some c) : TreeIn m level c S :=
  (treeIn_iff.mp h).2 index c hc

theorem TreeIn.mono (h : TreeIn m level p S) (hsub : ∀ q, S q → S' q) : TreeIn m level p S' :=
  fun path q hq => hsub q (h path q hq)

theorem treeIn_true (m : Word → Fin 512 → Word) (level : ℕ) (p : Word) :
    TreeIn m level p fun _ => True := fun _ _ _ => trivial

/-- **A hierarchy is determined by the contents of its tables.** -/
theorem TreeIn.tableAt_eq (h : TreeIn m level p S) (hsame : ∀ q, S q → m' q = m q)
    (path : List (Fin 512)) : tableAt m' level p path = tableAt m level p path := by
  induction path generalizing level p with
  | nil => rfl
  | cons index path ih =>
      rw [tableAt, tableAt, hsame p h.root]
      cases hc : entryChild level (m p index) with
      | none => rfl
      | some c =>
          obtain ⟨hlevel, -⟩ := entryChild_eq_some.mp hc
          obtain ⟨l, rfl⟩ := Nat.exists_eq_succ_of_ne_zero hlevel
          exact ih (h.child hc)

theorem TreeIn.congr (h : TreeIn m level p S) (hsame : ∀ q, S q → m' q = m q) :
    TreeIn m' level p S := by
  intro path q hq
  rw [h.tableAt_eq hsame] at hq
  exact h path q hq

end TreeIn

/-! ## Walks -/

/-- The leaf an address leads to, with its level.  Bit 7 of a PML4 entry is reserved,
so that such an entry maps nothing. -/
def mmuWalk (memory : Word → Fin 512 → Word) : (level : ℕ) → (p va : Word) → Option (ℕ × Word)
  | 0, p, va => Tables.leafOf (memory p (levelIndex 0 va))
  | level + 1, p, va =>
      let entry := memory p (levelIndex (level + 1) va)
      if isPresent entry = false then none
      else if isHuge entry then
        if level + 1 = vmmLevelPml4 then none else some (level + 1, entry)
      else mmuWalk memory level (entryAddress entry) va

/-- What an access to a virtual address finds: the size of the page as the level of
its leaf, the physical address, and the effective rights. -/
structure Translation where
  level : ℕ
  physical : Word
  writable : Bool
  user : Bool
  deriving DecidableEq, Repr

/-- The bits of an address below a page of the given level. -/
def offsetMask (level : ℕ) : Word := BitVec.ofNat 64 (2 ^ (12 + 9 * level) - 1)

/-- The translation of an address by the processor. -/
def mmuTranslate (memory : Word → Fin 512 → Word) (root va : Word) : Option Translation :=
  (mmuWalk memory vmmLevelPml4 root va).map fun (level, entry) =>
    { level := level
      physical := (entryAddress entry &&& ~~~offsetMask level) ||| (va &&& offsetMask level)
      writable := (walkEntries memory vmmLevelPml4 root va).all (hasFlag vmmWritable)
      user := (walkEntries memory vmmLevelPml4 root va).all (hasFlag vmmUser) }

/-- What a walk decides at one entry, with the bits the decision hands on.  The
address of a child table is not one of them. -/
inductive Decision
  | absent
  | leaf (entry : Word)
  | table (flags : Word)
  deriving DecidableEq, Repr

/-- The decision at an entry of a table of the given level. -/
def decision (level : ℕ) (entry : Word) : Decision :=
  if isPresent entry = false then .absent
  else if level = vmmLevelPt ∨ isHuge entry = true then .leaf entry
  else .table (entry &&& ~~~addressMask)

/-- The decisions on the way to an address, from the given level down. -/
def walkDecisions (memory : Word → Fin 512 → Word) : (level : ℕ) → (p va : Word) → List Decision
  | 0, p, va => [decision 0 (memory p (levelIndex 0 va))]
  | level + 1, p, va =>
      let entry := memory p (levelIndex (level + 1) va)
      decision (level + 1) entry :: if isPresent entry = true ∧ isHuge entry = false then
        walkDecisions memory level (entryAddress entry) va else []

section Decision

variable {level : ℕ} {entry entry' : Word}

theorem decision_of_not_present (h : isPresent entry = false) : decision level entry = .absent :=
  if_pos h

theorem decision_of_leaf (hpresent : isPresent entry = true)
    (hleaf : level = vmmLevelPt ∨ isHuge entry = true) : decision level entry = .leaf entry := by
  rw [decision, if_neg (by rw [hpresent]; decide), if_pos hleaf]

theorem decision_of_child {c : Word} (h : entryChild level entry = some c) :
    decision level entry = .table (entry &&& ~~~addressMask) := by
  obtain ⟨hlevel, hpresent, hhuge, -⟩ := entryChild_eq_some.mp h
  rw [decision, if_neg (by rw [hpresent]; decide), if_neg]
  rintro (hzero | hhuge')
  · exact hlevel hzero
  · rw [hhuge] at hhuge'
    cases hhuge'

/-- Equal decisions agree on presence. -/
theorem isPresent_of_decision (h : decision level entry' = decision level entry) :
    isPresent entry' = isPresent entry := by
  have hiff : ∀ e, decision level e = .absent ↔ isPresent e = false := by
    intro e
    unfold decision
    split_ifs with hpresent hleaf
    · simp [hpresent]
    · simp [hpresent]
    · simp [hpresent]
  rw [Bool.eq_iff_iff, ← not_iff_not, Bool.not_eq_true, Bool.not_eq_true, ← hiff, ← hiff, h]

/-- Equal decisions point to tables alike. -/
theorem entryChild_isSome_of_decision (h : decision level entry' = decision level entry) :
    (entryChild level entry').isSome = (entryChild level entry).isSome := by
  have hiff : ∀ e, (entryChild level e).isSome = true ↔ ∃ flags, decision level e =
      .table flags := by
    intro e
    unfold decision entryChild
    split_ifs with hlevel hpresent <;> simp_all
  rw [Bool.eq_iff_iff, hiff, hiff, h]

/-- A decision other than to go down is taken on the whole entry. -/
theorem eq_of_decision (h : decision level entry' = decision level entry)
    (hpresent : isPresent entry = true) (hchild : entryChild level entry = none) :
    entry' = entry := by
  have hleaf : level = vmmLevelPt ∨ isHuge entry = true := by
    by_contra hnot
    rw [not_or] at hnot
    have hsome : entryChild level entry = some (entryAddress entry) :=
      entryChild_eq_some.mpr ⟨hnot.1, hpresent, by simpa using hnot.2, rfl⟩
    rw [hsome] at hchild
    cases hchild
  rw [decision_of_leaf hpresent hleaf] at h
  unfold decision at h
  split_ifs at h
  exact Decision.leaf.inj h

end Decision

/-! ## Copies -/

/-- The hierarchy at `p'` in `m'` is a copy of the one at `p` in `m`: the same
decisions at every position. -/
def SameTree (m m' : Word → Fin 512 → Word) : (level : ℕ) → (p p' : Word) → Prop
  | 0, p, p' => ∀ index, decision 0 (m' p' index) = decision 0 (m p index)
  | level + 1, p, p' => ∀ index,
      decision (level + 1) (m' p' index) = decision (level + 1) (m p index) ∧
        ∀ c, entryChild (level + 1) (m p index) = some c →
          SameTree m m' level c (entryAddress (m' p' index))

/-- The part of `SameTree` at one index. -/
def SameEntry (m m' : Word → Fin 512 → Word) (level : ℕ) (p p' : Word) (index : Fin 512) : Prop :=
  decision level (m' p' index) = decision level (m p index) ∧
    ∀ c, entryChild level (m p index) = some c →
      SameTree m m' (level - 1) c (entryAddress (m' p' index))

section SameTree

variable {m m' n n' : Word → Fin 512 → Word} {level : ℕ} {p p' : Word} {S S' : Word → Prop}

theorem sameTree_iff : SameTree m m' level p p' ↔ ∀ index, SameEntry m m' level p p' index := by
  cases level with
  | zero =>
      refine forall_congr' fun index => ⟨fun h => ⟨h, fun c hc => ?_⟩, fun h => h.1⟩
      exact absurd rfl (entryChild_eq_some.mp hc).1
  | succ level => exact Iff.rfl

/-- Being a copy depends on the contents of the two hierarchies only. -/
theorem SameTree.congr (h : SameTree m m' level p p') (hp : TreeIn m level p S)
    (hp' : TreeIn m' level p' S') (hn : ∀ q, S q → n q = m q) (hn' : ∀ q, S' q → n' q = m' q) :
    SameTree n n' level p p' := by
  induction level generalizing p p' with
  | zero =>
      intro index
      rw [hn p hp.root, hn' p' hp'.root]
      exact h index
  | succ level ih =>
      intro index
      rw [hn p hp.root, hn' p' hp'.root]
      obtain ⟨hdecision, hbelow⟩ := h index
      refine ⟨hdecision, fun c hc => ?_⟩
      have hsome := entryChild_isSome_of_decision hdecision
      rw [hc, Option.isSome_some] at hsome
      obtain ⟨c', hc'⟩ := Option.isSome_iff_exists.mp hsome
      obtain ⟨-, -, -, rfl⟩ := entryChild_eq_some.mp hc'
      exact ih (hbelow c hc) (hp.child hc) (hp'.child hc')

/-- One step of a walk in a copy. -/
theorem SameTree.step (h : SameTree m m' (level + 1) p p') (index : Fin 512) :
    m' p' index = m p index ∧ entryChild (level + 1) (m p index) = none ∨
      isPresent (m' p' index) = false ∧ isPresent (m p index) = false ∨
      ∃ c c', entryChild (level + 1) (m p index) = some c ∧
        entryChild (level + 1) (m' p' index) = some c' ∧ SameTree m m' level c c' ∧
        m' p' index &&& ~~~addressMask = m p index &&& ~~~addressMask := by
  obtain ⟨hdecision, hbelow⟩ := h index
  cases hc : entryChild (level + 1) (m p index) with
  | none =>
      by_cases hpresent : isPresent (m p index) = true
      · exact .inl ⟨eq_of_decision hdecision hpresent hc, rfl⟩
      · have hpresent' := isPresent_of_decision hdecision
        rw [Bool.not_eq_true] at hpresent
        exact .inr (.inl ⟨hpresent'.trans hpresent, hpresent⟩)
  | some c =>
      have hsome := entryChild_isSome_of_decision hdecision
      rw [hc, Option.isSome_some] at hsome
      obtain ⟨c', hc'⟩ := Option.isSome_iff_exists.mp hsome
      obtain ⟨-, -, -, haddr⟩ := entryChild_eq_some.mp hc'
      refine .inr (.inr ⟨c, c', rfl, hc', haddr ▸ hbelow c hc, ?_⟩)
      rw [decision_of_child hc, decision_of_child hc'] at hdecision
      exact Decision.table.inj hdecision

/-- **A copy is walked like the original.** -/
theorem SameTree.walkDecisions_eq (h : SameTree m m' level p p') (va : Word) :
    walkDecisions m' level p' va = walkDecisions m level p va := by
  induction level generalizing p p' with
  | zero => exact congrArg (fun d => [d]) (h _)
  | succ level ih =>
      rw [walkDecisions, walkDecisions]
      rw [(h (levelIndex (level + 1) va)).1]
      refine congrArg (_ :: ·) ?_
      rcases h.step (levelIndex (level + 1) va) with
        ⟨heq, hnone⟩ | ⟨hp', hp⟩ | ⟨c, c', hc, hc', hsame, -⟩
      · have hnot : ¬ (isPresent (m p (levelIndex (level + 1) va)) = true ∧
            isHuge (m p (levelIndex (level + 1) va)) = false) := fun hand => by
          rw [entryChild_eq_some.mpr ⟨by omega, hand.1, hand.2, rfl⟩] at hnone
          cases hnone
        rw [heq, if_neg hnot, if_neg hnot]
      · rw [if_neg (by rw [hp']; simp), if_neg (by rw [hp]; simp)]
      · obtain ⟨-, hpresent, hhuge, rfl⟩ := entryChild_eq_some.mp hc
        obtain ⟨-, hpresent', hhuge', rfl⟩ := entryChild_eq_some.mp hc'
        rw [if_pos ⟨hpresent', hhuge'⟩, if_pos ⟨hpresent, hhuge⟩]
        exact ih hsame

/-- A copy maps what the original maps, to the same leaf. -/
theorem SameTree.mmuWalk_eq (h : SameTree m m' level p p') (va : Word) :
    mmuWalk m' level p' va = mmuWalk m level p va := by
  induction level generalizing p p' with
  | zero =>
      rw [mmuWalk, mmuWalk]
      have hdecision := h (levelIndex 0 va)
      by_cases hpresent : isPresent (m p (levelIndex 0 va)) = true
      · rw [eq_of_decision hdecision hpresent rfl]
      · have hpresent' := isPresent_of_decision hdecision
        rw [Bool.not_eq_true] at hpresent
        rw [Tables.leafOf, Tables.leafOf, if_pos (hpresent'.trans hpresent), if_pos hpresent]
  | succ level ih =>
      rw [mmuWalk, mmuWalk]
      rcases h.step (levelIndex (level + 1) va) with
        ⟨heq, hnone⟩ | ⟨hp', hp⟩ | ⟨c, c', hc, hc', hsame, -⟩
      · rw [heq]
        split_ifs with hpresent hhuge
        · rfl
        · rfl
        · rfl
        · rw [entryChild_eq_some.mpr ⟨by omega, by simpa using hpresent, by simpa using hhuge, rfl⟩]
            at hnone
          cases hnone
      · rw [if_pos hp', if_pos hp]
      · obtain ⟨-, hpresent, hhuge, rfl⟩ := entryChild_eq_some.mp hc
        obtain ⟨-, hpresent', hhuge', rfl⟩ := entryChild_eq_some.mp hc'
        simp only [hpresent, hhuge, hpresent', hhuge', Bool.true_eq_false, Bool.false_eq_true,
          if_false]
        exact ih hsame

end SameTree

/-! ## Registered tables -/

section Registered

variable {s : Paging} {loose : Set Word} {p va owner : Word} {t : Table} {level : ℕ}

/-- Positions below a registered table are those of the forest. -/
theorem tableAt_eq_descend (hwf : s.tables.forest.Wf vmmLevelPml4 loose) (ht : s.tables p = some t)
    (hl : t.level = level) (path : List (Fin 512)) :
    tableAt s.memory level p path = s.tables.forest.descend path p := by
  induction path generalizing level p t with
  | nil => rfl
  | cons index path ih =>
      rw [tableAt, Forest.descend, Tables.forest_edge ht, memory_of_tables ht, hl]
      cases hc : entryChild level (t.entries index) with
      | none => rfl
      | some c =>
          obtain ⟨u, hu, hul, -⟩ := Tables.child_of_wf hwf ht (hl.symm ▸ hc)
          exact ih hu (by omega)

/-- The walk of the processor and the checked walk of the source agree on registered
tables. -/
theorem walk_eq_mmuWalk (hwf : s.tables.forest.Wf vmmLevelPml4 loose) (ht : s.tables p = some t)
    (hl : t.level = level) (ho : t.owner = owner) :
    s.tables.walk owner level p va = mmuWalk s.memory level p va := by
  induction level generalizing p t with
  | zero =>
      rw [Tables.walk_zero ht hl ho, mmuWalk, memory_of_tables ht]
      rfl
  | succ level ih =>
      rw [Tables.walk_succ ht hl ho, mmuWalk, memory_of_tables ht]
      split_ifs with hpresent hhuge htop
      · rfl
      · rfl
      · rfl
      · obtain ⟨u, hu, hul, huo⟩ := Tables.child_of_wf hwf ht
          (entryChild_eq_some.mpr ⟨by omega, by simpa using hpresent, by simpa using hhuge, rfl⟩)
        exact ih hu (by omega) (huo.trans ho)

/-- The tables of a registered hierarchy are registered below its root. -/
theorem Paging.Inv.treeIn_desc (h : s.Inv loose) (ht : s.tables p = some t) (hl : t.level = level) :
    TreeIn s.memory level p (s.tables.forest.Desc p) := by
  intro path q hq
  rw [tableAt_eq_descend h.wf ht hl] at hq
  exact Forest.desc_of_descend hq

end Registered

end Batos
