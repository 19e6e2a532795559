import Batos.Vmm.Contents

/-!
# The clone verifier

`vmm_verify_clone` compares two hierarchies entry by entry.  It is a function of the
words in memory and of two roots, and the memory here is arbitrary.

What it accepts is read off once (`verifyCloneLevel_eq_zero`): of an entry that is
absent or has bit 7 set it compares everything, of a 4 KiB leaf everything but the
bits the processor sets, and of a pointer to a table presence and the child — neither
the flags of the pointer, nor whether the entry opposite is a pointer at all.
Two results follow.

* Acceptance means that the clone is walked like the source exactly when these gaps
  are not used (`ClonesFaithfully`).
* A clone is still accepted after the processor has set Accessed and Dirty bits
  exactly when it has set them alike wherever bit 7 is set.
-/

namespace Batos

open Option

variable {recur : Word → Word → ℤ} {mask : Word}

/-! ## The source functions -/

/-- `VMM_HARDWARE_MANAGED_BITS`. -/
abbrev vmmHardwareManagedBits : Word := 0x60

/-- The code of a mismatch, which names its kind, the level and the index. -/
def cloneMismatch (base : ℕ) (level : ℕ) (index : Fin 512) : ℤ :=
  -(base + (level + 1) * 10000 + (index : ℕ) : ℤ)

/-- The body of the loop of `verify_clone_level`; zero goes on to the next index. -/
def verifyCloneEntry (level : ℕ) (recur : Word → Word → ℤ) (sourceEntry destinationEntry : Word)
    (index : Fin 512) : ℤ :=
  if isPresent sourceEntry = false then
    if isPresent destinationEntry = true then cloneMismatch 1000000 level index else 0
  else if isHuge sourceEntry = true then
    if destinationEntry ≠ sourceEntry then cloneMismatch 2000000 level index else 0
  else if isPresent destinationEntry = false then cloneMismatch 3000000 level index
  else if level = vmmLevelPt then
    let sourceCompare := sourceEntry &&& ~~~vmmHardwareManagedBits
    let destinationCompare := destinationEntry &&& ~~~vmmHardwareManagedBits
    if destinationCompare ≠ sourceCompare then cloneMismatch 4000000 level index else 0
  else
    let sourceChild := entryAddress sourceEntry
    let destinationChild := entryAddress destinationEntry
    if sourceChild = 0 ∨ destinationChild = 0 then cloneMismatch 5000000 level index
    else if sourceChild = destinationChild then cloneMismatch 6000000 level index
    else recur sourceChild destinationChild

/-- The loop of `verify_clone_level`: it returns the first result that is not zero. -/
def verifyCloneEntries (body : Fin 512 → ℤ) : List (Fin 512) → ℤ
  | [] => 0
  | index :: rest => if body index ≠ 0 then body index else verifyCloneEntries body rest

/-- One level of `verify_clone_level`. -/
def verifyCloneTable (memory : Word → Fin 512 → Word) (level : ℕ) (recur : Word → Word → ℤ)
    (source destination : Word) : ℤ :=
  if source = 0 ∨ destination = 0 then -1000000
  else if vmmLevelPml4 < level then -1000001
  else if source = destination then -1000002
  else verifyCloneEntries
    (fun index => verifyCloneEntry level recur (memory source index)
    (memory destination index) index)
    tableIndices

/-- `verify_clone_level`. -/
def verifyCloneLevel (memory : Word → Fin 512 → Word) : (level : ℕ) →
    (source destination : Word) → ℤ
  | 0 => verifyCloneTable memory 0 fun _ _ => -1000001
  | level + 1 => verifyCloneTable memory (level + 1) (verifyCloneLevel memory level)

/-- `vmm_verify_clone`. -/
def vmmVerifyClone (memory : Word → Fin 512 → Word) (source cloned : Word) : ℤ :=
  if source = 0 ∨ cloned = 0 then -1
  else if source = cloned then -1
  else verifyCloneLevel memory vmmLevelPml4 source cloned

/-! ## What is accepted -/

/-- A pair of entries the loop passes over. -/
inductive Accepts (memory : Word → Fin 512 → Word) (level : ℕ) (e d : Word) : Prop
  | absent (source : isPresent e = false) (clone : isPresent d = false)
  | huge (source : isPresent e = true) (bit : isHuge e = true) (equal : d = e)
  | page (source : isPresent e = true) (bit : isHuge e = false) (clone : isPresent d = true)
      (bottom : level = vmmLevelPt)
      (equal : d &&& ~~~vmmHardwareManagedBits = e &&& ~~~vmmHardwareManagedBits)
  | table (below : ℕ) (source : isPresent e = true) (bit : isHuge e = false)
      (clone : isPresent d = true) (above : level = below + 1)
      (checked : verifyCloneLevel memory below (entryAddress e) (entryAddress d) = 0)

section Accepts

variable {memory : Word → Fin 512 → Word} {level : ℕ} {a b e d va : Word} {index : Fin 512}

theorem cloneMismatch_ne_zero (base level : ℕ) (index : Fin 512) :
    cloneMismatch base level index ≠ 0 := by
  unfold cloneMismatch
  omega

/-- The loop passes if every entry does. -/
theorem verifyCloneEntries_eq_zero {body : Fin 512 → ℤ} {indices : List (Fin 512)} :
    verifyCloneEntries body indices = 0 ↔ ∀ index ∈ indices, body index = 0 := by
  induction indices with
  | nil => simp [verifyCloneEntries]
  | cons index indices ih =>
      rw [verifyCloneEntries, List.forall_mem_cons]
      split_ifs with hbody
      · exact ⟨fun h => absurd h hbody, fun h => absurd h.1 hbody⟩
      · rw [ih, and_iff_right (not_ne_iff.mp hbody)]

/-- The checks at the head of a level, and those of the loop. -/
theorem verifyCloneTable_eq_zero (hlevel : level ≤ vmmLevelPml4) :
    verifyCloneTable memory level recur a b = 0 ↔ a ≠ 0 ∧ b ≠ 0 ∧ a ≠ b ∧
      ∀ index, verifyCloneEntry level recur (memory a index) (memory b index) index = 0 := by
  unfold verifyCloneTable
  split_ifs with hzero htop heq
  · exact ⟨fun h => absurd h (by decide), fun h => absurd hzero (not_or.mpr ⟨h.1, h.2.1⟩)⟩
  · exact absurd hlevel (Nat.not_le.mpr htop)
  · exact ⟨fun h => absurd h (by decide), fun h => absurd heq h.2.2.1⟩
  · rw [not_or] at hzero
    rw [verifyCloneEntries_eq_zero]
    exact ⟨fun h => ⟨hzero.1, hzero.2, heq, fun index => h index (mem_tableIndices index)⟩,
      fun h index _ => h.2.2.2 index⟩

/-- A level that is accepted has two different tables. -/
theorem ne_of_verifyCloneLevel (hlevel : level ≤ vmmLevelPml4)
    (h : verifyCloneLevel memory level a b = 0) : a ≠ 0 ∧ b ≠ 0 ∧ a ≠ b := by
  cases level with
  | zero | succ =>
      obtain ⟨ha, hb, hab, -⟩ := (verifyCloneTable_eq_zero hlevel).mp h
      exact ⟨ha, hb, hab⟩

/-- An accepted pair of entries that are neither absent nor leaves points to accepted tables. -/
theorem Accepts.child (h : Accepts memory level e d) (hsource : ¬ isPresent e = false)
    (hhuge : ¬ isHuge e = true) (hbottom : level ≠ vmmLevelPt) :
    ∃ l, level = l + 1 ∧ verifyCloneLevel memory l (entryAddress e) (entryAddress d) = 0 := by
  cases h with
  | absent hsource' => exact absurd hsource' hsource
  | huge _ hhuge' => exact absurd hhuge' hhuge
  | page _ _ _ hbottom' => exact absurd hbottom' hbottom
  | table l _ _ _ habove hchecked => exact ⟨l, habove, hchecked⟩

/-- The loop passes over exactly the accepted pairs. -/
theorem verifyCloneEntry_eq_zero (hrecur : ∀ l, level = l + 1 → recur = verifyCloneLevel memory l)
    (hlevel : level ≤ vmmLevelPml4) :
    verifyCloneEntry level recur e d index = 0 ↔ Accepts memory level e d := by
  have hfail : ∀ {base}, ¬ Accepts memory level e d →
      (cloneMismatch base level index = 0 ↔ Accepts memory level e d) :=
    fun hnot => iff_of_false (cloneMismatch_ne_zero _ level index) hnot
  unfold verifyCloneEntry
  dsimp only
  split_ifs with hsource hclone hhuge hne hclone hbottom hcompare hzero hsame
  · exact hfail fun h => by cases h <;> simp_all
  · exact iff_of_true rfl (.absent hsource (by simpa using hclone))
  · exact hfail fun h => by cases h <;> simp_all
  · exact iff_of_true rfl (.huge (by simpa using hsource) hhuge (not_ne_iff.mp hne))
  · exact hfail fun h => by cases h <;> simp_all
  · exact hfail fun h => by cases h <;> simp_all
  · exact iff_of_true rfl (.page (by simpa using hsource) (by simpa using hhuge)
      (by simpa using hclone) hbottom (not_ne_iff.mp hcompare))
  · refine hfail fun h => ?_
    obtain ⟨l, hl, hchecked⟩ := h.child hsource hhuge hbottom
    obtain ⟨ha, hb, -⟩ := ne_of_verifyCloneLevel (by omega) hchecked
    exact hzero.elim ha hb
  · refine hfail fun h => ?_
    obtain ⟨l, hl, hchecked⟩ := h.child hsource hhuge hbottom
    exact (ne_of_verifyCloneLevel (by omega) hchecked).2.2 hsame
  · obtain ⟨l, hl⟩ := Nat.exists_eq_succ_of_ne_zero hbottom
    rw [hrecur l hl]
    refine ⟨fun h => .table l (by simpa using hsource) (by simpa using hhuge)
      (by simpa using hclone) hl h, fun h => ?_⟩
    obtain ⟨l', hl', hchecked⟩ := h.child hsource hhuge hbottom
    obtain rfl : l = l' := by omega
    exact hchecked

/-- **What a level of the verifier accepts.** -/
theorem verifyCloneLevel_eq_zero (hlevel : level ≤ vmmLevelPml4) :
    verifyCloneLevel memory level a b = 0 ↔ a ≠ 0 ∧ b ≠ 0 ∧ a ≠ b ∧
      ∀ index, Accepts memory level (memory a index) (memory b index) := by
  cases level with
  | zero =>
      rw [verifyCloneLevel, verifyCloneTable_eq_zero hlevel]
      have hrecur : ∀ l, 0 = l + 1 → (fun _ _ => -1000001) = verifyCloneLevel memory l :=
        fun l hl => absurd hl (Nat.succ_ne_zero l).symm
      simp only [verifyCloneEntry_eq_zero hrecur hlevel]
  | succ level =>
      rw [verifyCloneLevel, verifyCloneTable_eq_zero hlevel]
      have hrecur : ∀ l, level + 1 = l + 1 → verifyCloneLevel memory level =
        verifyCloneLevel memory l :=
        fun l hl => by rw [Nat.succ.inj hl]
      simp only [verifyCloneEntry_eq_zero hrecur hlevel]

theorem vmmVerifyClone_eq_zero :
    vmmVerifyClone memory a b = 0 ↔ verifyCloneLevel memory vmmLevelPml4 a b = 0 := by
  unfold vmmVerifyClone
  split_ifs with hzero hsame
  · refine iff_of_false (by decide) fun h => ?_
    obtain ⟨ha, hb, -⟩ := ne_of_verifyCloneLevel le_rfl h
    exact hzero.elim ha hb
  · exact iff_of_false (by decide) fun h => (ne_of_verifyCloneLevel le_rfl h).2.2 hsame
  · exact Iff.rfl

end Accepts

/-! ## Soundness -/

/-- The level of the first entry, on the way of an address, that points to a table in
the source and has bit 7 set in the clone. -/
def hugeOverTable (memory : Word → Fin 512 → Word) : (level : ℕ) → (a b va : Word) → Option ℕ
  | 0, _, _, _ => none
  | level + 1, a, b, va =>
      let e := memory a (levelIndex (level + 1) va)
      let d := memory b (levelIndex (level + 1) va)
      if isPresent e = true ∧ isHuge e = false ∧ isPresent d = true then
        if isHuge d then some (level + 1)
        else hugeOverTable memory level (entryAddress e) (entryAddress d) va
      else none

/-- The entries above the one that ends the walk of an address. -/
def entriesAbove (memory : Word → Fin 512 → Word) (root va : Word) : List Word :=
  (walkEntries memory vmmLevelPml4 root va).dropLast

/-- Two entries alike up to the bits the processor sets. -/
def SameLeaf (x y : ℕ × Word) : Prop :=
  y.1 = x.1 ∧ y.2 &&& ~~~vmmHardwareManagedBits = x.2 &&& ~~~vmmHardwareManagedBits

section Sound

variable {memory : Word → Fin 512 → Word} {level k : ℕ} {a b e d p va : Word}

theorem mmuWalk_of_pointer (hpresent : isPresent (memory p (levelIndex (level + 1) va)) = true)
    (hhuge : isHuge (memory p (levelIndex (level + 1) va)) = false) :
    mmuWalk memory (level + 1) p va =
      mmuWalk memory level (entryAddress (memory p (levelIndex (level + 1) va))) va := by
  rw [mmuWalk, if_neg (by rw [hpresent]; decide), if_neg (by rw [hhuge]; decide)]

theorem mmuWalk_of_huge (hpresent : isPresent (memory p (levelIndex (level + 1) va)) = true)
    (hhuge : isHuge (memory p (levelIndex (level + 1) va)) = true) :
    mmuWalk memory (level + 1) p va =
      if level + 1 = vmmLevelPml4 then none
      else some (level + 1, memory p (levelIndex (level + 1) va)) := by
  rw [mmuWalk, if_neg (by rw [hpresent]; decide), if_pos hhuge]

/-- A walk returns no leaf of a level above its start. -/
theorem level_le_of_mmuWalk (h : mmuWalk memory level p va = some (k, e)) : k ≤ level := by
  induction level generalizing p with
  | zero =>
      rw [mmuWalk, Tables.leafOf] at h
      split_ifs at h
      exact (congrArg Prod.fst (some.inj h)).symm.le
  | succ level ih =>
      rw [mmuWalk] at h
      split_ifs at h with hpresent hhuge htop
      · exact (congrArg Prod.fst (some.inj h)).symm.le
      · exact (ih h).trans (Nat.le_succ level)

/-- A walk that finds a leaf reads it last. -/
theorem walkEntries_of_mmuWalk (h : mmuWalk memory level p va = some (k, e)) :
    ∃ above, walkEntries memory level p va = above ++ [e] := by
  induction level generalizing p with
  | zero =>
      rw [mmuWalk, Tables.leafOf] at h
      split_ifs at h
      obtain rfl := congrArg Prod.snd (some.inj h)
      exact ⟨[], rfl⟩
  | succ level ih =>
      rw [mmuWalk] at h
      rw [walkEntries]
      split_ifs at h with hpresent hhuge htop
      · obtain rfl := congrArg Prod.snd (some.inj h)
        refine ⟨[], ?_⟩
        rw [if_neg (by rw [hhuge]; simp)]
        rfl
      · obtain ⟨above, habove⟩ := ih h
        refine ⟨memory p (levelIndex (level + 1) va) :: above, ?_⟩
        rw [if_pos ⟨by simpa using hpresent, by simpa using hhuge⟩, habove]
        rfl

/-- A right is effective if the leaf and the entries above it grant it. -/
theorem all_walkEntries (h : mmuWalk memory vmmLevelPml4 p va = some (k, e)) (f : Word → Bool) :
    (walkEntries memory vmmLevelPml4 p va).all f = ((entriesAbove memory p va).all f && f e) := by
  obtain ⟨above, habove⟩ := walkEntries_of_mmuWalk h
  rw [entriesAbove, habove, List.dropLast_concat, List.all_append]
  simp

/-- **An accepted clone is walked like its source**, unless the walk of the clone ends
at an entry that continues in the source. -/
theorem mmuWalk_of_verifyCloneLevel (hlevel : level ≤ vmmLevelPml4)
    (h : verifyCloneLevel memory level a b = 0)
    (hnone : hugeOverTable memory level a b va = none) :
    Option.Rel SameLeaf (mmuWalk memory level a va) (mmuWalk memory level b va) := by
  induction level generalizing a b with
  | zero =>
      obtain ⟨-, -, -, haccepts⟩ := (verifyCloneLevel_eq_zero hlevel).mp h
      rw [mmuWalk, mmuWalk, Tables.leafOf, Tables.leafOf]
      cases haccepts (levelIndex 0 va) with
      | absent hsource hclone =>
          rw [if_pos hsource, if_pos hclone]
          exact .none
      | huge hsource _ hequal =>
          rw [hequal, if_neg (by rw [hsource]; decide)]
          exact .some ⟨rfl, rfl⟩
      | page hsource _ hclone _ hequal =>
          rw [if_neg (by rw [hsource]; decide), if_neg (by rw [hclone]; decide)]
          exact .some ⟨rfl, hequal⟩
      | table below _ _ _ habove => exact absurd habove (Nat.succ_ne_zero below).symm
  | succ level ih =>
      obtain ⟨-, -, -, haccepts⟩ := (verifyCloneLevel_eq_zero hlevel).mp h
      rw [hugeOverTable] at hnone
      cases haccepts (levelIndex (level + 1) va) with
      | absent hsource hclone =>
          rw [mmuWalk, mmuWalk, if_pos hsource, if_pos hclone]
          exact .none
      | huge hsource hbit hequal =>
          rw [mmuWalk, mmuWalk, hequal, if_neg (by rw [hsource]; decide), if_pos hbit]
          split_ifs
          · exact .none
          · exact .some ⟨rfl, rfl⟩
      | page _ _ _ hbottom => exact absurd hbottom (Nat.succ_ne_zero level)
      | table below hsource hbit hclone habove hchecked =>
          obtain rfl : level = below := Nat.succ.inj habove
          rw [if_pos ⟨hsource, hbit, hclone⟩] at hnone
          split_ifs at hnone with hbit'
          rw [mmuWalk_of_pointer hsource hbit, mmuWalk_of_pointer hclone (by simpa using hbit')]
          exact ih (Nat.le_of_succ_le hlevel) hchecked hnone

/-- Where the clone ends at an entry that continues in the source, their walks differ:
the source has no leaf of that level. -/
theorem mmuWalk_of_hugeOverTable (h : hugeOverTable memory level a b va = some k) :
    (if k = vmmLevelPml4 then mmuWalk memory level b va = none
      else ∃ d, mmuWalk memory level b va = some (k, d)) ∧
      ∀ j e, mmuWalk memory level a va = some (j, e) → j < k := by
  induction level generalizing a b with
  | zero => cases h
  | succ level ih =>
      rw [hugeOverTable] at h
      split_ifs at h with hpath hbit
      · obtain ⟨hsource, hbit', hclone⟩ := hpath
        obtain rfl := some.inj h
        rw [mmuWalk_of_huge hclone hbit, mmuWalk_of_pointer hsource hbit']
        refine ⟨?_, fun j e hwalk => Nat.lt_succ_of_le (level_le_of_mmuWalk hwalk)⟩
        split_ifs with htop
        · rfl
        · exact ⟨_, rfl⟩
      · obtain ⟨hsource, hbit', hclone⟩ := hpath
        rw [mmuWalk_of_pointer hclone (by simpa using hbit), mmuWalk_of_pointer hsource hbit']
        exact ih h

/-- An accepted clone has no table in common with its source at the same position. -/
theorem tableAt_ne_of_verifyCloneLevel (hlevel : level ≤ vmmLevelPml4)
    (h : verifyCloneLevel memory level a b = 0) {path : List (Fin 512)} {q : Word}
    (hq : tableAt memory level b path = some q) : tableAt memory level a path ≠ some q := by
  induction path generalizing level a b with
  | nil =>
      obtain rfl := some.inj hq
      exact fun hroot => (ne_of_verifyCloneLevel hlevel h).2.2 (some.inj hroot)
  | cons index path ih =>
      intro hq'
      obtain ⟨c, hc, hq⟩ := bind_eq_some_iff.mp hq
      obtain ⟨c', hc', hq'⟩ := bind_eq_some_iff.mp hq'
      obtain ⟨-, hclone, hbit, rfl⟩ := entryChild_eq_some.mp hc
      obtain ⟨hpositive, hsource, hbit', rfl⟩ := entryChild_eq_some.mp hc'
      obtain ⟨-, -, -, haccepts⟩ := (verifyCloneLevel_eq_zero hlevel).mp h
      cases haccepts index with
      | absent hsource' => exact absurd hsource' (by rw [hsource]; decide)
      | huge _ hbit'' => exact absurd hbit'' (by rw [hbit']; decide)
      | page _ _ _ hbottom => exact hpositive hbottom
      | table below _ _ _ habove hchecked =>
          subst habove
          exact ih (Nat.le_of_succ_le hlevel) hchecked hq hq'

/-- Bits outside those the processor sets are compared. -/
theorem and_eq_of_hardware (hmask : ~~~vmmHardwareManagedBits &&& mask = mask)
    (h : d &&& ~~~vmmHardwareManagedBits = e &&& ~~~vmmHardwareManagedBits) :
    d &&& mask = e &&& mask := by
  rw [← hmask, ← BitVec.and_assoc, ← BitVec.and_assoc, h]

end Sound

/-- What acceptance is meant to say: every address is translated alike, and the two
hierarchies have no table in common. -/
structure CloneAgrees (memory : Word → Fin 512 → Word) (source clone : Word) : Prop where
  translations : ∀ va, mmuTranslate memory clone va = mmuTranslate memory source va
  disjoint : ∀ path path' q, tableAt memory vmmLevelPml4 clone path = some q →
    tableAt memory vmmLevelPml4 source path' ≠ some q

/-- The differences the verifier does not look for are absent.  A PML4 entry with
bit 7 set maps nothing, so it is harmless over a table in which the address is not
mapped either. -/
structure ClonesFaithfully (memory : Word → Fin 512 → Word) (source clone : Word) : Prop where
  leaves : ∀ va k, hugeOverTable memory vmmLevelPml4 source clone va = some k →
    k = vmmLevelPml4 ∧ mmuWalk memory vmmLevelPml4 source va = none
  rights : ∀ va k e, mmuWalk memory vmmLevelPml4 source va = some (k, e) →
    ∀ flag, flag = vmmWritable ∨ flag = vmmUser → hasFlag flag e = true →
      (entriesAbove memory clone va).all (hasFlag flag) =
        (entriesAbove memory source va).all (hasFlag flag)
  crossed : ∀ path path' q, path ≠ path' → tableAt memory vmmLevelPml4 clone path = some q →
    tableAt memory vmmLevelPml4 source path' ≠ some q

section Sound

variable {memory : Word → Fin 512 → Word} {s c va : Word}

/-- Two leaves the verifier takes for one another are the same up to the rights the
entries above them grant. -/
theorem mmuTranslate_eq_iff {k : ℕ} {e d : Word}
    (hs : mmuWalk memory vmmLevelPml4 s va = some (k, e))
    (hc : mmuWalk memory vmmLevelPml4 c va = some (k, d))
    (hleaf : d &&& ~~~vmmHardwareManagedBits = e &&& ~~~vmmHardwareManagedBits) :
    mmuTranslate memory c va = mmuTranslate memory s va ↔
      ∀ flag, flag = vmmWritable ∨ flag = vmmUser → hasFlag flag e = true →
        (entriesAbove memory c va).all (hasFlag flag) =
          (entriesAbove memory s va).all (hasFlag flag) := by
  have haddress : entryAddress d = entryAddress e := and_eq_of_hardware (by decide) hleaf
  have hflag : ∀ flag, flag = vmmWritable ∨ flag = vmmUser → hasFlag flag d = hasFlag flag e := by
    rintro flag (rfl | rfl)
    · exact congrArg (· != 0) (and_eq_of_hardware (by decide) hleaf)
    · exact congrArg (· != 0) (and_eq_of_hardware (by decide) hleaf)
  have hright : ∀ flag, flag = vmmWritable ∨ flag = vmmUser →
      ((walkEntries memory vmmLevelPml4 c va).all (hasFlag flag) =
        (walkEntries memory vmmLevelPml4 s va).all (hasFlag flag) ↔
        (hasFlag flag e = true → (entriesAbove memory c va).all (hasFlag flag) =
          (entriesAbove memory s va).all (hasFlag flag))) := by
    intro flag h
    rw [all_walkEntries hs, all_walkEntries hc, hflag flag h]
    cases hasFlag flag e <;> simp
  rw [mmuTranslate, mmuTranslate, hs, hc, map_some, map_some, some_inj,
    Translation.mk.injEq, haddress]
  constructor
  · rintro ⟨-, -, hwritable, huser⟩ flag (rfl | rfl)
    · exact (hright _ (.inl rfl)).mp hwritable
    · exact (hright _ (.inr rfl)).mp huser
  · intro h
    exact ⟨rfl, rfl, (hright _ (.inl rfl)).mpr (h _ (.inl rfl)),
      (hright _ (.inr rfl)).mpr (h _ (.inr rfl))⟩

theorem mmuTranslate_eq_none : mmuTranslate memory s va = none ↔
    mmuWalk memory vmmLevelPml4 s va = none := map_eq_none_iff

/-- What acceptance says about one address. -/
theorem mmuTranslate_of_vmmVerifyClone (h : verifyCloneLevel memory vmmLevelPml4 s c = 0)
    (va : Word) :
    mmuTranslate memory c va = mmuTranslate memory s va ↔
      (∀ k, hugeOverTable memory vmmLevelPml4 s c va = some k →
        k = vmmLevelPml4 ∧ mmuWalk memory vmmLevelPml4 s va = none) ∧
      ∀ k e, mmuWalk memory vmmLevelPml4 s va = some (k, e) →
        ∀ flag, flag = vmmWritable ∨ flag = vmmUser → hasFlag flag e = true →
          (entriesAbove memory c va).all (hasFlag flag) =
            (entriesAbove memory s va).all (hasFlag flag) := by
  cases hk : hugeOverTable memory vmmLevelPml4 s c va with
  | none =>
      have hrel := mmuWalk_of_verifyCloneLevel le_rfl h hk
      cases hs : mmuWalk memory vmmLevelPml4 s va with
      | none =>
          rw [hs] at hrel
          have hc : mmuWalk memory vmmLevelPml4 c va = none := by
            generalize mmuWalk memory vmmLevelPml4 c va = x at hrel
            cases hrel
            rfl
          rw [mmuTranslate_eq_none.mpr hs, mmuTranslate_eq_none.mpr hc]
          simp
      | some x =>
          obtain ⟨k, e⟩ := x
          rw [hs] at hrel
          obtain ⟨d, hc, hleaf⟩ : ∃ d, mmuWalk memory vmmLevelPml4 c va = some (k, d) ∧
              d &&& ~~~vmmHardwareManagedBits = e &&& ~~~vmmHardwareManagedBits := by
            generalize mmuWalk memory vmmLevelPml4 c va = y at hrel
            cases hrel with
            | some hsame => exact ⟨_, congrArg (fun j => some (j, _)) hsame.1, hsame.2⟩
          rw [mmuTranslate_eq_iff hs hc hleaf]
          refine ⟨fun hrights => ⟨fun _ hnone => absurd hnone (by simp), ?_⟩, fun hall => ?_⟩
          · rintro k' e' hpair
            obtain ⟨rfl, rfl⟩ := Prod.mk.inj (some.inj hpair)
            exact hrights
          · exact hall.2 k e rfl
  | some k =>
      obtain ⟨hc, hsource⟩ := mmuWalk_of_hugeOverTable hk
      by_cases htop : k = vmmLevelPml4
      · rw [if_pos htop] at hc
        rw [mmuTranslate_eq_none.mpr hc, eq_comm, mmuTranslate_eq_none]
        refine ⟨fun hs => ⟨fun j hj => ⟨(some.inj hj).symm.trans htop, hs⟩, ?_⟩,
          fun hall => (hall.1 k rfl).2⟩
        intro j e hsome
        rw [hs] at hsome
        cases hsome
      · -- the leaf of the clone is larger than any leaf of the source can be
        rw [if_neg htop] at hc
        obtain ⟨d, hc⟩ := hc
        refine iff_of_false (fun heq => ?_) fun hall => htop (hall.1 k rfl).1
        cases hs : mmuWalk memory vmmLevelPml4 s va with
        | none =>
            rw [mmuTranslate_eq_none.mpr hs, mmuTranslate_eq_none, hc] at heq
            cases heq
        | some x =>
            obtain ⟨j, e⟩ := x
            rw [mmuTranslate, mmuTranslate, hs, hc] at heq
            have hlevel : k = j := congrArg Translation.level (some.inj heq)
            exact (hsource j e hs).ne hlevel.symm

end Sound

/-- **What an accepted clone means.**  Acceptance by `vmm_verify_clone` means that the
clone translates every address as the source does and shares no table with it, exactly
when the clone has none of the three differences that are not checked. -/
theorem vmmVerifyClone_sound_iff (memory : Word → Fin 512 → Word) (source clone : Word)
    (h : vmmVerifyClone memory source clone = 0) :
    CloneAgrees memory source clone ↔ ClonesFaithfully memory source clone := by
  rw [vmmVerifyClone_eq_zero] at h
  constructor
  · intro hagrees
    have hva := fun va => (mmuTranslate_of_vmmVerifyClone h va).mp (hagrees.translations va)
    exact ⟨fun va => (hva va).1, fun va => (hva va).2,
      fun path path' q _ => hagrees.disjoint path path' q⟩
  · intro hfaithful
    refine ⟨fun va => (mmuTranslate_of_vmmVerifyClone h va).mpr
      ⟨hfaithful.leaves va, hfaithful.rights va⟩, fun path path' q hq => ?_⟩
    by_cases hpath : path = path'
    · subst hpath
      exact tableAt_ne_of_verifyCloneLevel le_rfl h hq
    · exact hfaithful.crossed path path' q hpath hq

/-- Two hierarchies under one PML4 slot: the source has an empty page directory where
the clone has a 1 GiB leaf. -/
def hugeCloneMemory (p : Word) (index : Fin 512) : Word :=
  if index ≠ 0 then 0
  else if p = 0x1000 then 0x2003
  else if p = 0x2000 then 0x3003
  else if p = 0x4000 then 0x5003
  else if p = 0x5000 then 0x40000083
  else 0

/-- The verifier accepts a clone that maps a gigabyte the source does not map. -/
theorem huge_leaf_accepted :
    vmmVerifyClone hugeCloneMemory 0x1000 0x4000 = 0 ∧
      mmuTranslate hugeCloneMemory 0x1000 0x234567 = none ∧
      mmuTranslate hugeCloneMemory 0x4000 0x234567 =
        some { level := 2, physical := 0x40234567, writable := true, user := false } := by
  refine ⟨?_, ?_, ?_⟩
  · decide +kernel
  · decide +kernel
  · decide +kernel

theorem vmmVerifyClone_sound_iff_demo :
    vmmVerifyClone hugeCloneMemory 0x1000 0x4000 = 0 ∧
      ¬ ClonesFaithfully hugeCloneMemory 0x1000 0x4000 := by
  have haccepted : vmmVerifyClone hugeCloneMemory 0x1000 0x4000 = 0 := by decide +kernel
  refine ⟨haccepted, fun hfaithful => ?_⟩
  have hagrees := (vmmVerifyClone_sound_iff hugeCloneMemory 0x1000 0x4000 haccepted).mpr hfaithful
  exact absurd (hagrees.translations 0) (by decide +kernel)

/-! ## Hardware updates -/

/-- Memory after the processor has set these bits. -/
def hardwareSet (memory bits : Word → Fin 512 → Word) (p : Word) (index : Fin 512) : Word :=
  memory p index ||| bits p index

/-- Only Accessed and Dirty bits are set. -/
def HardwareManaged (bits : Word → Fin 512 → Word) : Prop :=
  ∀ p index, bits p index &&& ~~~vmmHardwareManagedBits = 0

/-- At every position of the two hierarchies, an entry with bit 7 set has come to hold
the same bits as the one opposite. -/
def HugeAlike (memory bits : Word → Fin 512 → Word) (level : ℕ) (a b : Word) : Prop :=
  ∀ path a' b' index, tableAt memory level a path = some a' →
    tableAt memory level b path = some b' → isPresent (memory a' index) = true →
    isHuge (memory a' index) = true →
    hardwareSet memory bits b' index = hardwareSet memory bits a' index

section Hardware

variable {memory bits : Word → Fin 512 → Word} {level : ℕ} {a b : Word} {index : Fin 512}
  {S : Word → Prop}

/-- One level of the condition. -/
theorem hugeAlike_iff : HugeAlike memory bits level a b ↔ ∀ index,
    (isPresent (memory a index) = true → isHuge (memory a index) = true →
      hardwareSet memory bits b index = hardwareSet memory bits a index) ∧
    ∀ c c', entryChild level (memory a index) = some c →
      entryChild level (memory b index) = some c' →
      HugeAlike memory bits (level - 1) c c' := by
  constructor
  · intro h index
    refine ⟨h [] a b index rfl rfl, fun c c' hc hc' path a' b' j ha hb => ?_⟩
    refine h (index :: path) a' b' j ?_ ?_
    · rw [tableAt, hc]
      exact ha
    · rw [tableAt, hc']
      exact hb
  · intro h path a' b' j ha hb
    cases path with
    | nil =>
        obtain rfl := some.inj ha
        obtain rfl := some.inj hb
        exact (h j).1
    | cons index path =>
        obtain ⟨c, hc, ha⟩ := bind_eq_some_iff.mp ha
        obtain ⟨c', hc', hb⟩ := bind_eq_some_iff.mp hb
        exact (h index).2 c c' hc hc' path a' b' j ha hb

/-- What the processor sets is outside everything but the comparison of whole entries. -/
theorem HardwareManaged.and_mask (h : HardwareManaged bits)
    (hmask : ~~~vmmHardwareManagedBits &&& mask = mask) (p : Word) (index : Fin 512) :
    hardwareSet memory bits p index &&& mask = memory p index &&& mask := by
  refine and_eq_of_hardware hmask ?_
  rw [hardwareSet, BitVec.and_or_distrib_right, h p index]
  exact BitVec.or_zero

theorem HardwareManaged.isPresent_set (h : HardwareManaged bits) (p : Word) (index : Fin 512) :
    isPresent (hardwareSet memory bits p index) = isPresent (memory p index) :=
  congrArg (· != 0) (h.and_mask (by decide) p index)

/-- The processor changes no bit 7. -/
theorem HardwareManaged.isHuge_set (h : HardwareManaged bits) (p : Word) (index : Fin 512) :
    isHuge (hardwareSet memory bits p index) = isHuge (memory p index) :=
  congrArg (· != 0) (h.and_mask (by decide) p index)

theorem HardwareManaged.entryAddress_set (h : HardwareManaged bits) (p : Word) (index : Fin 512) :
    entryAddress (hardwareSet memory bits p index) = entryAddress (memory p index) :=
  h.and_mask (by decide) p index

/-- One pair of entries of a clone, after the update. -/
theorem accepts_hardwareSet (h : HardwareManaged bits)
    (hsame : SameEntry memory memory level a b index)
    (hbelow : ∀ l c c', level = l + 1 → entryChild level (memory a index) = some c →
      entryChild level (memory b index) = some c' →
      (verifyCloneLevel (hardwareSet memory bits) l c c' = 0 ↔ HugeAlike memory bits l c c')) :
    Accepts (hardwareSet memory bits) level (hardwareSet memory bits a index)
        (hardwareSet memory bits b index) ↔
      (isPresent (memory a index) = true → isHuge (memory a index) = true →
        hardwareSet memory bits b index = hardwareSet memory bits a index) ∧
      ∀ c c', entryChild level (memory a index) = some c →
        entryChild level (memory b index) = some c' → HugeAlike memory bits (level - 1) c c' := by
  have hpresence := isPresent_of_decision hsame.1
  constructor
  · intro haccepts
    constructor
    · intro hpresent hhuge
      cases haccepts with
      | absent hsource => simp [h.isPresent_set, hpresent] at hsource
      | huge _ _ hequal => exact hequal
      | page _ hbit => simp [h.isHuge_set, hhuge] at hbit
      | table _ _ hbit => simp [h.isHuge_set, hhuge] at hbit
    · intro c c' hc hc'
      obtain ⟨hlevel, hpresent, hhuge, hcaddr⟩ := entryChild_eq_some.mp hc
      obtain ⟨-, -, -, hcaddr'⟩ := entryChild_eq_some.mp hc'
      cases haccepts with
      | absent hsource => simp [h.isPresent_set, hpresent] at hsource
      | huge _ hbit => simp [h.isHuge_set, hhuge] at hbit
      | page _ _ _ hbottom => exact absurd hbottom hlevel
      | table l _ _ _ habove hchecked =>
          rw [h.entryAddress_set, h.entryAddress_set, hcaddr, hcaddr'] at hchecked
          subst habove
          exact (hbelow l c c' rfl hc hc').mp hchecked
  · rintro ⟨hleaf, hchildren⟩
    by_cases hpresent : isPresent (memory a index) = true
    swap
    · rw [Bool.not_eq_true] at hpresent
      exact .absent (by rw [h.isPresent_set, hpresent])
        (by rw [h.isPresent_set, hpresence, hpresent])
    have hsource : isPresent (hardwareSet memory bits a index) = true := by
      rw [h.isPresent_set, hpresent]
    have hclone : isPresent (hardwareSet memory bits b index) = true := by
      rw [h.isPresent_set, hpresence, hpresent]
    by_cases hhuge : isHuge (memory a index) = true
    · exact .huge hsource (by rw [h.isHuge_set, hhuge]) (hleaf hpresent hhuge)
    rw [Bool.not_eq_true] at hhuge
    have hbit : isHuge (hardwareSet memory bits a index) = false := by rw [h.isHuge_set, hhuge]
    cases level with
    | zero =>
        refine .page hsource hbit hclone rfl ?_
        rw [h.and_mask (BitVec.and_self), h.and_mask (BitVec.and_self),
          eq_of_decision hsame.1 hpresent rfl]
    | succ l =>
        have hc : entryChild (l + 1) (memory a index) = some (entryAddress (memory a index)) :=
          entryChild_eq_some.mpr ⟨Nat.succ_ne_zero l, hpresent, hhuge, rfl⟩
        have hsome := entryChild_isSome_of_decision hsame.1
        rw [hc, isSome_some] at hsome
        obtain ⟨c', hc'⟩ := isSome_iff_exists.mp hsome
        obtain ⟨-, -, -, hcaddr'⟩ := entryChild_eq_some.mp hc'
        refine .table l hsource hbit hclone rfl ?_
        rw [h.entryAddress_set, h.entryAddress_set, hcaddr']
        exact (hbelow l _ c' rfl hc hc').mpr (hchildren _ c' hc hc')

/-- **A copy in other tables is accepted exactly if entries with bit 7 were updated
alike.** -/
theorem verifyCloneLevel_hardwareSet (h : HardwareManaged bits) (hlevel : level ≤ vmmLevelPml4)
    (hsame : SameTree memory memory level a b) (ha : TreeIn memory level a fun q => q ≠ 0 ∧ ¬ S q)
    (hb : TreeIn memory level b fun q => q ≠ 0 ∧ S q) :
    verifyCloneLevel (hardwareSet memory bits) level a b = 0 ↔ HugeAlike memory bits level a b := by
  induction level using Nat.strongRecOn generalizing a b with
  | ind level ih =>
      -- the tests of the roots pass, since the two trees share no table
      have hne : a ≠ b := fun heq => ha.root.2 (heq ▸ hb.root.2)
      rw [verifyCloneLevel_eq_zero hlevel, hugeAlike_iff, and_iff_right ha.root.1,
        and_iff_right hb.root.1, and_iff_right hne]
      refine forall_congr' fun index => accepts_hardwareSet h (sameTree_iff.mp hsame index) ?_
      rintro l c c' rfl hc hc'
      obtain ⟨-, -, -, hcaddr'⟩ := entryChild_eq_some.mp hc'
      exact ih l (Nat.lt_succ_self l) (Nat.le_of_succ_le hlevel) (hcaddr' ▸ (hsame index).2 c hc)
        (ha.child hc) (hb.child hc')

end Hardware

/-- **When hardware updates pass verification.**  Of a source and the clone that
`clone_page_table` returned in any reachable state, after the processor has set any
Accessed and Dirty bits in either, `vmm_verify_clone` accepts exactly if every entry
with bit 7 set — a huge leaf, or a 4 KiB leaf with the PAT bit — has come to hold the
same bits in both. -/
theorem vmmVerifyClone_hardware_iff (image : KernelImage) (boot : MmBoot) {ops : List MmOp}
    (hops : (mmSystem image).Admissible boot.start ops) {s : Paging}
    (hs : ((mmSystem image).run boot.start ops).vmm.paging = s) {source c : Word}
    (hsource : s.Settled vmmLevelPml4 source) {s' : Paging}
    (hclone : clonePageTable vmmLevelPml4 0 s source = (some c, s'))
    {bits : Word → Fin 512 → Word} (hbits : HardwareManaged bits) :
    vmmVerifyClone (hardwareSet s'.memory bits) source c = 0 ↔
      HugeAlike s'.memory bits vmmLevelPml4 source c := by
  have hinv : s.Inv ∅ := hs ▸ (Mm.inv_run image boot hops).paging
  obtain ⟨hsame, hnonzero, hfresh, hkept⟩ := clonePageTable_some hinv hsource hclone
  have htree : TreeIn s.memory vmmLevelPml4 source fun q => q ≠ 0 ∧ ¬ s.pmm.Free (frameOf q) :=
    fun path q hq => ⟨hnonzero path q hq, hsource path q hq⟩
  rw [vmmVerifyClone_eq_zero]
  exact verifyCloneLevel_hardwareSet hbits le_rfl
    (hsame.congr hsource hfresh hkept fun _ _ => rfl)
    (htree.congr fun q hq => hkept q hq.2) (hfresh.mono fun _ hq => ⟨hq.1, hq.2.2⟩)

/-- The state after the boot loader's hierarchy has been cloned: the clone is at
`0x3000`, its PDPT at `0x4000`. -/
def loaderClone : Paging := (clonePageTable vmmLevelPml4 0 loaderBoot.start.vmm.paging 0x1F000).2

theorem loaderClone_eq :
    clonePageTable vmmLevelPml4 0 loaderBoot.start.vmm.paging 0x1F000 =
      (some 0x3000, loaderClone) :=
  Prod.fst_eq_iff.mp (by decide +kernel)

/-- The processor has written through the 1 GiB leaf of these tables. -/
def dirtyLeaf (tables : List Word) (p : Word) (index : Fin 512) : Word :=
  if p ∈ tables ∧ index = 0 then 0x60 else 0

theorem hardwareManaged_dirtyLeaf (tables : List Word) : HardwareManaged (dirtyLeaf tables) := by
  intro p index
  unfold dirtyLeaf
  split_ifs
  · decide
  · decide

theorem vmmVerifyClone_hardware_iff_demo :
    vmmVerifyClone (hardwareSet loaderClone.memory (dirtyLeaf [0x20000, 0x4000]))
      0x1F000 0x3000 = 0 ∧
      HugeAlike loaderClone.memory (dirtyLeaf [0x20000, 0x4000]) vmmLevelPml4 0x1F000 0x3000 := by
  have haccepted : vmmVerifyClone (hardwareSet loaderClone.memory (dirtyLeaf [0x20000, 0x4000]))
      0x1F000 0x3000 = 0 := by decide +kernel
  exact ⟨haccepted, (@vmmVerifyClone_hardware_iff demoImage loaderBoot [] trivial
    loaderBoot.start.vmm.paging rfl 0x1F000 0x3000 (treeIn_loaderBoot.mono fun _ hq => hq.2.2)
    loaderClone loaderClone_eq _ (hardwareManaged_dirtyLeaf _)).mp haccepted⟩

/-- A write through a 1 GiB page of the source, between cloning and verifying, fails
the verification. -/
theorem dirty_huge_leaf_rejected :
    clonePageTable vmmLevelPml4 0 loaderBoot.start.vmm.paging 0x1F000 = (some 0x3000, loaderClone) ∧
      HardwareManaged (dirtyLeaf [0x20000]) ∧
      vmmVerifyClone (hardwareSet loaderClone.memory (dirtyLeaf [0x20000])) 0x1F000 0x3000 =
        -2030000 := by
  refine ⟨loaderClone_eq, hardwareManaged_dirtyLeaf _, ?_⟩
  decide +kernel

end Batos
