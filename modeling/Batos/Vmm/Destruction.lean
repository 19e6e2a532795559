import Batos.Lib.Unfolding
import Batos.Vmm.AddressSpace
import Batos.Vmm.Tables

/-!
# Destroying an address space of any shape

`vmm_destroy_address_space` walks the tables of the root twice: once to check, stamping
every record it meets with a fresh epoch, and once to release.  This module follows both
walks in states nobody has promised anything about.  Entries may point anywhere, also
back up or twice to one table; a record may be missing, of another level or of another
owner; two records may have one frame; and the stamps may hold any value.

`treeNodes` lists the tables the walks meet.  The check succeeds only if it meets a
record in use, of the right level and owner, each time, and never the same table twice
(`validateAddressSpaceTree_spec`): a stamp with the current epoch, however it came about,
makes it fail.  Over such a tree the second walk meets the same tables, because it only
clears entries of tables it is not going to meet again, and releases each of them once
(`releaseTree_tree`).
-/

namespace Batos

open List
open SlotRegistry (amend find_map find_spec map_amend slotOf_map)
open PageTableRecord (inUse level ownerPml4 physicalAddress)

variable {recur : Paging → Word → Bool × Paging} {s s' : Paging}

/-! ## The tables a walk meets -/

/-- The table an entry above the page-table level leads to. -/
def pointedTable (entry : Word) : Option Word :=
  if isPresent entry = true ∧ isHuge entry = false then some (entryAddress entry) else none

/-- The tables some entries of a table lead to. -/
def tableKids (memory : Word → Fin 512 → Word) (indices : List (Fin 512)) (p : Word) : List Word :=
  indices.filterMap fun index => pointedTable (memory p index)

/-- The tables reached from a table of a level through present entries that are not
huge, each with the level it is reached at. -/
def treeNodes (memory : Word → Fin 512 → Word) (level : ℕ) (p : Word) : List (ℕ × Word) :=
  Unfolding.nodes (tableKids memory tableIndices) level p

/-- The tables reached below some entries of a table. -/
def subNodes (memory : Word → Fin 512 → Word) (level : ℕ) (p : Word) (indices : List (Fin 512)) :
    List (ℕ × Word) :=
  (tableKids memory indices p).flatMap (treeNodes memory level)

theorem treeNodes_succ (memory : Word → Fin 512 → Word) (level : ℕ) (p : Word) :
    treeNodes memory (level + 1) p = (level + 1, p) :: subNodes memory level p tableIndices := rfl

/-- The loop goes through the entries in order. -/
theorem subNodes_cons (memory : Word → Fin 512 → Word) (level : ℕ) (p : Word) (index : Fin 512)
    (indices : List (Fin 512)) :
    subNodes memory level p (index :: indices) =
      (match pointedTable (memory p index) with
        | none => []
        | some c => treeNodes memory level c) ++ subNodes memory level p indices := by
  unfold subNodes tableKids
  rw [filterMap_cons]
  cases pointedTable (memory p index) with
  | none => rfl
  | some c => exact flatMap_cons

/-! ## Stamps -/

/-- A record without its stamp. -/
def PageTableRecord.unstamped (r : PageTableRecord) : PageTableRecord :=
  { r with validationEpoch := 0 }

/-- Nothing but stamps has changed. -/
structure Paging.Restamped (s s' : Paging) : Prop where
  pmm : s'.pmm = s.pmm
  memory : s'.memory = s.memory
  records : s'.records.map PageTableRecord.unstamped = s.records.map PageTableRecord.unstamped

namespace Paging.Restamped

variable {s s' s'' : Paging}

theorem refl (s : Paging) : s.Restamped s := ⟨rfl, rfl, rfl⟩

theorem trans (h₁ : s.Restamped s') (h₂ : s'.Restamped s'') : s.Restamped s'' :=
  ⟨h₂.pmm.trans h₁.pmm, h₂.memory.trans h₁.memory, h₂.records.trans h₁.records⟩

/-- Stamping changes no other field. -/
theorem stamp (s : Paging) (p epoch : Word) :
    s.Restamped (s.amend p fun record => { record with validationEpoch := epoch }) :=
  ⟨rfl, rfl, map_amend fun _ => rfl⟩

end Paging.Restamped

/-- The start of an epoch changes nothing but stamps. -/
theorem restamped_nextEpoch (v : Vmm) : v.paging.Restamped (nextEpoch v).paging := by
  unfold nextEpoch
  dsimp only
  split_ifs with hwrap
  · refine ⟨rfl, rfl, ?_⟩
    rw [map_map]
    rfl
  · exact .refl _

/-- What a walk that stamps every table it meets has found out, and what it leaves. -/
structure Paging.Marks (owner epoch : Word) (nodes : List (ℕ × Word)) (s s' : Paging) : Prop where
  distinct : (nodes.map Prod.snd).Nodup
  registered : ∀ l q, (l, q) ∈ nodes → ∃ r, findPageTableRecord s q = some r ∧ r.level = l ∧
    r.ownerPml4 = owner ∧ r.validationEpoch ≠ epoch
  marked : ∀ q ∈ nodes.map Prod.snd, ∃ r, findPageTableRecord s' q = some r ∧
    r.validationEpoch = epoch
  others : ∀ q, q ∉ nodes.map Prod.snd → findPageTableRecord s' q = findPageTableRecord s q

namespace Paging.Marks

variable {owner epoch : Word} {nodes nodes' : List (ℕ × Word)} {s s' s'' : Paging}

theorem nil (owner epoch : Word) (s : Paging) : Marks owner epoch [] s s :=
  ⟨nodup_nil, fun _ _ h => absurd h not_mem_nil, fun _ h => absurd h not_mem_nil,
    fun _ _ => rfl⟩

/-- Two walks one after the other: the second does not meet a table of the first, or it
would have found the stamp. -/
theorem append (h₁ : Marks owner epoch nodes s s') (h₂ : Marks owner epoch nodes' s' s'') :
    Marks owner epoch (nodes ++ nodes') s s'' := by
  have hdisjoint : ∀ q, q ∈ nodes.map Prod.snd → q ∉ nodes'.map Prod.snd := by
    intro q hq hq'
    obtain ⟨⟨l, q⟩, hmem, rfl⟩ := mem_map.mp hq'
    obtain ⟨r, hr, -, -, hfresh⟩ := h₂.registered l q hmem
    obtain ⟨r', hr', hstamp⟩ := h₁.marked q hq
    obtain rfl := Option.some.inj (hr.symm.trans hr')
    exact hfresh hstamp
  constructor
  · rw [map_append, nodup_append]
    refine ⟨h₁.distinct, h₂.distinct, ?_⟩
    rintro q hq _ hq' rfl
    exact hdisjoint q hq hq'
  · intro l q hq
    rcases mem_append.mp hq with hq | hq
    · exact h₁.registered l q hq
    · have hother : q ∉ nodes.map Prod.snd := fun hmem =>
        hdisjoint q hmem (mem_map_of_mem (f := Prod.snd) hq)
      rw [← h₁.others q hother]
      exact h₂.registered l q hq
  · intro q hq
    rw [map_append, mem_append] at hq
    rcases hq with hq | hq
    · rw [h₂.others q (hdisjoint q hq)]
      exact h₁.marked q hq
    · exact h₂.marked q hq
  · intro q hq
    rw [map_append, mem_append, not_or] at hq
    rw [h₂.others q hq.2, h₁.others q hq.1]

/-- One table. -/
theorem single {p : Word} {l : ℕ} {r : PageTableRecord} (hr : findPageTableRecord s p = some r)
    (hl : r.level = l) (ho : r.ownerPml4 = owner) (hfresh : r.validationEpoch ≠ epoch) :
    Marks owner epoch [(l, p)] s
      (s.amend p fun record => { record with validationEpoch := epoch }) := by
  have hne : p ≠ 0 := by
    rintro rfl
    cases hr
  constructor
  · exact nodup_singleton p
  · intro l' q hq
    rw [mem_singleton, Prod.mk.injEq] at hq
    obtain ⟨rfl, rfl⟩ := hq
    exact ⟨r, hr, hl, ho, hfresh⟩
  · intro q hq
    rw [map_singleton, mem_singleton] at hq
    subst hq
    refine ⟨{ r with validationEpoch := epoch }, ?_, rfl⟩
    rw [findPageTableRecord_of_ne_zero hne] at hr ⊢
    have hfind : SlotRegistry.find inUse physicalAddress q
        (s.amend q fun record => { record with validationEpoch := epoch }).records =
        (SlotRegistry.find inUse physicalAddress q s.records).map
          fun record => { record with validationEpoch := epoch } :=
      SlotRegistry.find_amend_self (fun _ => rfl) fun _ => rfl
    rw [hfind, hr]
    rfl
  · intro q hq
    have hne' : q ≠ p := fun heq => hq (heq ▸ mem_singleton_self _)
    have hfind : SlotRegistry.find inUse physicalAddress q
        (s.amend p fun record => { record with validationEpoch := epoch }).records =
        SlotRegistry.find inUse physicalAddress q s.records :=
      SlotRegistry.find_amend_of_ne
        (f := fun record : PageTableRecord => { record with validationEpoch := epoch })
        (fun _ _ => rfl) hne'
    unfold findPageTableRecord
    rw [hfind]

end Paging.Marks

/-! ## The check -/

/-- What one recursive call of the check is expected to do: change stamps only, and
succeed only on a tree. -/
def ValidateSpec (level : ℕ) (owner epoch : Word) (recur : Paging → Word → Bool × Paging) : Prop :=
  ∀ s p, s.Restamped (recur s p).2 ∧
    ((recur s p).1 = true → Paging.Marks owner epoch (treeNodes s.memory level p) s (recur s p).2)

/-- The loop over the entries of a table. -/
theorem validateEntries_spec {level : ℕ} {owner epoch : Word}
    (hrecur : ValidateSpec level owner epoch recur) (p : Word) (indices : List (Fin 512))
    (s : Paging) :
    s.Restamped (validateEntries (level + 1) recur p indices s).2 ∧
      ((validateEntries (level + 1) recur p indices s).1 = true →
        Paging.Marks owner epoch (subNodes s.memory level p indices) s
            (validateEntries (level + 1) recur p indices s).2 ∧
          (level + 1 = vmmLevelPml4 →
            ∀ index ∈ indices, isPresent (s.memory p index) = true →
            isHuge (s.memory p index) = false)) := by
  induction indices generalizing s with
  | nil => exact ⟨.refl s, fun _ => ⟨.nil owner epoch s, fun _ _ h => absurd h not_mem_nil⟩⟩
  | cons index indices ih =>
      rw [validateEntries, subNodes_cons]
      cases hpresent : isPresent (s.memory p index) with
      | false =>
          have hnone : pointedTable (s.memory p index) = none := by simp [pointedTable, hpresent]
          rw [hnone]
          dsimp only
          rw [if_pos rfl]
          obtain ⟨hstamps, hspec⟩ := ih s
          refine ⟨hstamps, fun htrue => ⟨(hspec htrue).1, fun hl i hi hp => ?_⟩⟩
          rcases mem_cons.mp hi with rfl | hi
          · rw [hpresent] at hp
            cases hp
          · exact (hspec htrue).2 hl i hi hp
      | true =>
          rw [if_neg (by simp)]
          cases hhuge : isHuge (s.memory p index) with
          | true =>
              have hnone : pointedTable (s.memory p index) = none := by simp [pointedTable, hhuge]
              rw [hnone, if_pos rfl]
              split_ifs with hlevel
              · exact ⟨.refl s, nofun⟩
              · obtain ⟨hstamps, hspec⟩ := ih s
                exact ⟨hstamps, fun htrue => ⟨(hspec htrue).1, fun hl => absurd hl hlevel⟩⟩
          | false =>
              have hsome : pointedTable (s.memory p index) =
                  some (entryAddress (s.memory p index)) := by
                simp [pointedTable, hpresent, hhuge]
              rw [hsome, if_neg (by simp)]
              obtain ⟨hstamps, hspec⟩ := hrecur s (entryAddress (s.memory p index))
              cases hcall : recur s (entryAddress (s.memory p index)) with
              | mk ok s₁ =>
                  rw [hcall] at hstamps hspec
                  cases ok with
                  | false => exact ⟨hstamps, nofun⟩
                  | true =>
                      obtain ⟨hstamps₁, hspec₁⟩ := ih s₁
                      rw [hstamps.memory] at hspec₁
                      refine ⟨hstamps.trans hstamps₁, fun htrue => ?_⟩
                      refine ⟨(hspec rfl).append (hspec₁ htrue).1, fun hl i hi hp => ?_⟩
                      rcases mem_cons.mp hi with rfl | hi
                      · exact hhuge
                      · exact (hspec₁ htrue).2 hl i hi hp

/-- One level of the check; a page table has no child tables. -/
theorem validateTable_spec {level : ℕ} {owner epoch : Word}
    (hrecur : ∀ l, level = l + 1 → ValidateSpec l owner epoch recur) (s : Paging) (p : Word) :
    s.Restamped (validateTable level recur s p owner epoch).2 ∧
      ((validateTable level recur s p owner epoch).1 = true →
        Paging.Marks owner epoch (treeNodes s.memory level p) s
            (validateTable level recur s p owner epoch).2 ∧
          (level = vmmLevelPml4 →
            ∀ index, isPresent (s.memory p index) = true → isHuge (s.memory p index) = false)) := by
  unfold validateTable
  by_cases hzero : p = 0
  · rw [if_pos hzero]
    exact ⟨.refl s, nofun⟩
  rw [if_neg hzero]
  cases hr : findPageTableRecord s p with
  | none => exact ⟨.refl s, nofun⟩
  | some r =>
      dsimp only
      by_cases hwrong : r.inUse = false ∨ r.level ≠ level ∨ r.ownerPml4 ≠ owner
      · rw [if_pos hwrong]
        exact ⟨.refl s, nofun⟩
      rw [if_neg hwrong]
      by_cases hstamped : r.validationEpoch = epoch
      · rw [if_pos hstamped]
        exact ⟨.refl s, nofun⟩
      rw [if_neg hstamped]
      rw [not_or, not_or, not_not, not_not] at hwrong
      have hstamps := Paging.Restamped.stamp s p epoch
      have hsingle := Paging.Marks.single hr hwrong.2.1 hwrong.2.2 hstamped
      cases level with
      | zero => exact ⟨hstamps, fun _ => ⟨hsingle, nofun⟩⟩
      | succ level =>
          rw [if_neg (Nat.succ_ne_zero level)]
          obtain ⟨hstamps', hspec⟩ := validateEntries_spec (hrecur level rfl) p tableIndices
            (s.amend p fun record => { record with validationEpoch := epoch })
          refine ⟨hstamps.trans hstamps', fun htrue => ?_⟩
          obtain ⟨hmarks, hhuge⟩ := hspec htrue
          rw [treeNodes_succ, ← singleton_append]
          exact ⟨hsingle.append hmarks, fun hl index => hhuge hl index (mem_tableIndices index)⟩

/-- **The check succeeds only on a tree**, whatever it is given. -/
theorem validateAddressSpaceTree_spec (level : ℕ) (owner epoch : Word) :
    ValidateSpec level owner epoch
      fun s p => validateAddressSpaceTree level s p owner epoch := by
  have hstep : ∀ {level recur}, (∀ l, level = l + 1 → ValidateSpec l owner epoch recur) →
      ValidateSpec level owner epoch fun s p => validateTable level recur s p owner epoch := by
    intro level recur hrecur s p
    obtain ⟨hstamps, hspec⟩ := validateTable_spec hrecur s p
    exact ⟨hstamps, fun htrue => (hspec htrue).1⟩
  induction level with
  | zero => exact hstep nofun
  | succ level ih =>
      refine hstep fun l hl => ?_
      obtain rfl := Nat.succ.inj hl
      exact ih

/-- No entry of a root that passes the check is huge. -/
theorem validateAddressSpaceTree_root {p owner epoch : Word}
    (h : (validateAddressSpaceTree vmmLevelPml4 s p owner epoch).1 = true) (index : Fin 512)
    (hpresent : isPresent (s.memory p index) = true) : isHuge (s.memory p index) = false :=
  ((validateTable_spec (fun _ hl => Nat.succ.inj hl ▸
    validateAddressSpaceTree_spec vmmLevelPdpt owner epoch) s p).2 h).2 rfl index hpresent

/-! ## The release -/

theorem memory_releasePageTable (s : Paging) (p : Word) :
    (releasePageTable s p).memory = s.memory := by
  unfold releasePageTable
  cases findPageTableRecord s p <;> rfl

/-- Releasing tables reads and writes the books, not the contents of tables. -/
theorem foldl_releasePageTable_memory (order : List Word) (s : Paging)
    (memory : Word → Fin 512 → Word) :
    order.foldl releasePageTable { s with memory := memory } =
      { order.foldl releasePageTable s with memory := memory } := by
  induction order generalizing s with
  | nil => rfl
  | cons p order ih =>
      have hstep : releasePageTable { s with memory := memory } p =
          { releasePageTable s p with memory := memory } := by
        have hfind : findPageTableRecord { s with memory := memory } p =
            findPageTableRecord s p := rfl
        unfold releasePageTable
        rw [hfind]
        cases findPageTableRecord s p <;> rfl
      rw [foldl_cons, foldl_cons, hstep, ih]

/-- The tables of a list have been released, in some order. -/
def Paging.ReleasedAll (tables : List Word) (s s' : Paging) : Prop :=
  ∃ order : List Word, order.Perm tables ∧
    s' = { order.foldl releasePageTable s with memory := s'.memory }

namespace Paging.ReleasedAll

variable {tables tables' : List Word} {s s' s'' : Paging}

theorem of_books (hpmm : s'.pmm = s.pmm) (hrecords : s'.records = s.records) :
    ReleasedAll [] s s' := by
  refine ⟨[], .refl [], ?_⟩
  cases s'
  cases hpmm
  cases hrecords
  rfl

theorem append (h₁ : ReleasedAll tables s s') (h₂ : ReleasedAll tables' s' s'') :
    ReleasedAll (tables ++ tables') s s'' := by
  obtain ⟨order, hperm, heq⟩ := h₁
  obtain ⟨order', hperm', heq'⟩ := h₂
  refine ⟨order ++ order', hperm.append hperm', ?_⟩
  rw [heq', heq, foldl_releasePageTable_memory, foldl_append]

theorem single (s : Paging) (p : Word) : ReleasedAll [p] s (releasePageTable s p) := by
  refine ⟨[p], .refl [p], ?_⟩
  rfl

end Paging.ReleasedAll

/-- The entries of the tables the walk went down from have been cleared. -/
structure Cleared (nodes : List (ℕ × Word)) (memory memory' : Word → Fin 512 → Word) : Prop where
  inside : ∀ l q, (l + 1, q) ∈ nodes → ∀ index,
    memory' q index = if isPresent (memory q index) = true then 0 else memory q index
  outside : ∀ q, (∀ l, (l + 1, q) ∉ nodes) → memory' q = memory q

/-- What releasing a tree does. -/
structure Paging.Frees (nodes : List (ℕ × Word)) (s s' : Paging) : Prop where
  memory : Cleared nodes s.memory s'.memory
  released : ReleasedAll (nodes.map Prod.snd) s s'

/-- What releasing the trees below some entries of a table does. -/
structure Paging.FreesBelow (p : Word) (indices : List (Fin 512)) (nodes : List (ℕ × Word))
    (s s' : Paging) : Prop where
  entries : ∀ index, s'.memory p index =
    if index ∈ indices ∧ isPresent (s.memory p index) = true then 0 else s.memory p index
  inside : ∀ l q, (l + 1, q) ∈ nodes → ∀ index,
    s'.memory q index = if isPresent (s.memory q index) = true then 0 else s.memory q index
  outside : ∀ q, q ≠ p → (∀ l, (l + 1, q) ∉ nodes) → s'.memory q = s.memory q
  released : ReleasedAll (nodes.map Prod.snd) s s'

/-- A walk meets the same tables in memories that agree on the tables it meets. -/
theorem treeNodes_congr {memory memory' : Word → Fin 512 → Word} {level : ℕ} {p : Word}
    (h : ∀ q, q ∈ (treeNodes memory level p).map Prod.snd → memory' q = memory q) :
    treeNodes memory' level p = treeNodes memory level p := by
  refine Unfolding.nodes_congr fun l q hq => ?_
  unfold tableKids
  rw [h q (mem_map_of_mem (f := Prod.snd) hq)]

/-- One entry. -/
theorem releaseEntry_frees {level : ℕ}
    (hrecur : ∀ s c, ((treeNodes s.memory level c).map Prod.snd).Nodup →
      Paging.Frees (treeNodes s.memory level c) s (releaseTree false level s c))
    (s : Paging) (p : Word) (index : Fin 512)
    (hp : p ∉ (subNodes s.memory level p [index]).map Prod.snd)
    (hdistinct : ((subNodes s.memory level p [index]).map Prod.snd).Nodup) :
    Paging.FreesBelow p [index] (subNodes s.memory level p [index]) s
      (releaseEntry (releaseTree false level) p s index) := by
  have hsub := subNodes_cons s.memory level p index []
  rw [show subNodes s.memory level p [] = [] from rfl, append_nil] at hsub
  rw [hsub] at hp hdistinct ⊢
  -- the entry of the table, once cleared
  have hclear : ∀ i, (s.write p index 0).memory p i =
      if i = index then 0 else s.memory p i := by
    intro i
    split_ifs with hi
    · subst hi
      exact memory_write_self s p i 0
    · simp [Paging.write, hi]
  unfold releaseEntry
  dsimp only
  cases hpresent : isPresent (s.memory p index) with
  | false =>
      have hnone : pointedTable (s.memory p index) = none := by simp [pointedTable, hpresent]
      rw [hnone, if_pos rfl]
      refine ⟨fun i => ?_, fun _ _ h => absurd h not_mem_nil, fun _ _ _ => rfl, .of_books rfl rfl⟩
      rw [if_neg]
      rintro ⟨hi, hpi⟩
      rw [mem_singleton.mp hi, hpresent] at hpi
      cases hpi
  | true =>
      have hentries : ∀ i, (s.write p index 0).memory p i =
          if i ∈ [index] ∧ isPresent (s.memory p i) = true then 0 else s.memory p i := by
        intro i
        rw [hclear]
        by_cases hi : i = index
        · subst hi
          rw [if_pos rfl, if_pos ⟨mem_singleton_self i, hpresent⟩]
        · rw [if_neg hi, if_neg fun hand => hi (mem_singleton.mp hand.1)]
      rw [if_neg (by simp)]
      cases hhuge : isHuge (s.memory p index) with
      | true =>
          have hnone : pointedTable (s.memory p index) = none := by simp [pointedTable, hhuge]
          rw [hnone, if_pos rfl]
          exact ⟨hentries, fun _ _ h => absurd h not_mem_nil,
            fun q hq _ => memory_write_of_ne hq _ _, .of_books rfl rfl⟩
      | false =>
          have hsome : pointedTable (s.memory p index) =
              some (entryAddress (s.memory p index)) := by
            simp [pointedTable, hpresent, hhuge]
          rw [hsome] at hp hdistinct ⊢
          rw [if_neg (by simp)]
          dsimp only at hp hdistinct ⊢
          generalize entryAddress (s.memory p index) = c at hp hdistinct ⊢
          have hsame : treeNodes (s.write p index 0).memory level c =
              treeNodes s.memory level c := by
            refine treeNodes_congr fun q hq => memory_write_of_ne ?_ _ _
            rintro rfl
            exact hp hq
          have hfrees := hrecur (s.write p index 0) c (by rw [hsame]; exact hdistinct)
          rw [hsame] at hfrees
          have hout : ∀ l, (l + 1, p) ∉ treeNodes s.memory level c := fun l hmem =>
            hp (mem_map_of_mem (f := Prod.snd) hmem)
          have hold : ∀ q, q ≠ p → (s.write p index 0).memory q = s.memory q := fun q hq =>
            memory_write_of_ne hq _ _
          refine ⟨fun i => ?_, fun l q hq i => ?_, fun q hq hnot => ?_, ?_⟩
          · rw [hfrees.memory.outside p hout, hentries]
          · have hne : q ≠ p := by
              rintro rfl
              exact hout l hq
            rw [hfrees.memory.inside l q hq, hold q hne]
          · rw [hfrees.memory.outside q hnot, hold q hq]
          · have hbooks : Paging.ReleasedAll [] s (s.write p index 0) := .of_books rfl rfl
            exact hbooks.append hfrees.released

/-- The loop over the entries. -/
theorem foldl_releaseEntry_frees {level : ℕ}
    (hrecur : ∀ s c, ((treeNodes s.memory level c).map Prod.snd).Nodup →
      Paging.Frees (treeNodes s.memory level c) s (releaseTree false level s c))
    (p : Word) {indices : List (Fin 512)} (hindices : indices.Nodup) (s : Paging)
    (hp : p ∉ (subNodes s.memory level p indices).map Prod.snd)
    (hdistinct : ((subNodes s.memory level p indices).map Prod.snd).Nodup) :
    Paging.FreesBelow p indices (subNodes s.memory level p indices) s
      (indices.foldl (releaseEntry (releaseTree false level) p) s) := by
  induction indices generalizing s with
  | nil =>
      exact ⟨fun _ => rfl, fun _ _ h => absurd h not_mem_nil, fun _ _ _ => rfl, .of_books rfl rfl⟩
  | cons index indices ih =>
      obtain ⟨hfresh, hrest⟩ := nodup_cons.mp hindices
      have hsplit : subNodes s.memory level p (index :: indices) =
          subNodes s.memory level p [index] ++ subNodes s.memory level p indices := by
        rw [subNodes_cons, subNodes_cons s.memory level p index []]
        exact congrArg (· ++ _) (append_nil _).symm
      rw [hsplit, map_append] at hp hdistinct
      rw [mem_append, not_or] at hp
      obtain ⟨hd₁, hd₂, hdisjoint⟩ := nodup_append.mp hdistinct
      have hone := releaseEntry_frees hrecur s p index hp.1 hd₁
      set s₁ := releaseEntry (releaseTree false level) p s index with hs₁
      -- the other entries still lead to the tables they led to
      have hkids : tableKids s₁.memory indices p = tableKids s.memory indices p := by
        refine filterMap_congr fun i hi => ?_
        rw [hone.entries, if_neg]
        rintro ⟨heq, -⟩
        exact hfresh (mem_singleton.mp heq ▸ hi)
      have hsame : subNodes s₁.memory level p indices = subNodes s.memory level p indices := by
        unfold subNodes
        rw [hkids]
        refine flatMap_congr fun c hc => treeNodes_congr fun q hq => ?_
        have hmem : q ∈ (subNodes s.memory level p indices).map Prod.snd := by
          obtain ⟨n, hn, rfl⟩ := mem_map.mp hq
          exact mem_map_of_mem (mem_flatMap.mpr ⟨c, hc, hn⟩)
        refine hone.outside q ?_ fun l hl => ?_
        · rintro rfl
          exact hp.2 hmem
        · exact hdisjoint q (mem_map_of_mem (f := Prod.snd) hl) q hmem rfl
      have hmany := ih hrest s₁ (by rw [hsame]; exact hp.2) (by rw [hsame]; exact hd₂)
      rw [hsame] at hmany
      rw [hsplit, foldl_cons, ← hs₁]
      refine ⟨fun i => ?_, fun l q hq i => ?_, fun q hq hnot => ?_, ?_⟩
      · rw [hmany.entries, hone.entries]
        by_cases hi : i = index
        · subst hi
          rw [if_neg fun hand => hfresh hand.1]
          simp
        · simp [hi]
      · rcases mem_append.mp hq with hq | hq
        · have hne : q ≠ p := by
            rintro rfl
            exact hp.1 (mem_map_of_mem (f := Prod.snd) hq)
          rw [hmany.outside q hne fun l' hl' => hdisjoint q (mem_map_of_mem (f := Prod.snd) hq) q
            (mem_map_of_mem (f := Prod.snd) hl') rfl]
          exact hone.inside l q hq i
        · have hne : q ≠ p := by
            rintro rfl
            exact hp.2 (mem_map_of_mem (f := Prod.snd) hq)
          rw [hmany.inside l q hq, hone.outside q hne fun l' hl' => hdisjoint q
            (mem_map_of_mem (f := Prod.snd) hl') q (mem_map_of_mem (f := Prod.snd) hq) rfl]
      · have hnot₁ : ∀ l, (l + 1, q) ∉ subNodes s.memory level p [index] := fun l hl =>
          hnot l (mem_append_left _ hl)
        have hnot₂ : ∀ l, (l + 1, q) ∉ subNodes s.memory level p indices := fun l hl =>
          hnot l (mem_append_right _ hl)
        rw [hmany.outside q hq hnot₂, hone.outside q hq hnot₁]
      · rw [map_append]
        exact hone.released.append hmany.released

/-- **The second walk over a tree** meets the tables the first one has met, and releases
each of them once. -/
theorem releaseTree_tree (level : ℕ) (s : Paging) (p : Word)
    (hdistinct : ((treeNodes s.memory level p).map Prod.snd).Nodup) :
    Paging.Frees (treeNodes s.memory level p) s (releaseTree false level s p) := by
  induction level generalizing s p with
  | zero =>
      refine ⟨⟨fun l q hq => ?_, fun q _ => ?_⟩, .single s p⟩
      · cases Unfolding.le_of_mem hq
      · exact congrFun (memory_releasePageTable s p) q
  | succ level ih =>
      rw [treeNodes_succ] at hdistinct ⊢
      rw [map_cons] at hdistinct
      obtain ⟨hp, hsub⟩ := nodup_cons.mp hdistinct
      have hindices : tableIndices.Nodup := nodup_finRange 512
      have hloop := foldl_releaseEntry_frees (fun s c => ih s c) p hindices s hp hsub
      have hunfold : releaseTree false (level + 1) s p =
          releasePageTable (tableIndices.foldl (releaseEntry (releaseTree false level) p) s) p := by
        rw [releaseTree, if_neg (by simp)]
      rw [hunfold]
      generalize tableIndices.foldl (releaseEntry (releaseTree false level) p) s = s₁ at hloop ⊢
      have hmemory := memory_releasePageTable s₁ p
      refine ⟨⟨fun l q hq i => ?_, fun q hnot => ?_⟩, ?_⟩
      · rw [hmemory]
        rcases mem_cons.mp hq with heq | hq
        · obtain rfl : q = p := (Prod.mk.inj heq).2
          rw [hloop.entries]
          simp [mem_tableIndices]
        · exact hloop.inside l q hq i
      · rw [hmemory]
        refine hloop.outside q ?_ fun l hl => hnot l (mem_cons_of_mem _ hl)
        rintro rfl
        exact hnot level mem_cons_self
      · obtain ⟨order, hperm, heq⟩ := hloop.released.append (.single s₁ p)
        rw [map_cons]
        exact ⟨order, hperm.trans (perm_append_singleton p _), heq⟩

/-! ## The books after the release -/

/-- The slot of the record `find_page_table_record` returns. -/
def Paging.slotOf (s : Paging) (p : Word) : Option ℕ :=
  SlotRegistry.slotOf inUse physicalAddress p s.records

/-- Stamps move no record. -/
theorem Paging.Restamped.slotOf (h : s.Restamped s') (p : Word) :
    s'.slotOf p = s.slotOf p := by
  have hmap : ∀ records : List PageTableRecord,
      SlotRegistry.slotOf inUse physicalAddress p
        (records.map PageTableRecord.unstamped) =
      SlotRegistry.slotOf inUse physicalAddress p records :=
    fun _ => slotOf_map (fun _ => rfl) fun _ => rfl
  unfold Paging.slotOf
  rw [← hmap s'.records, h.records, hmap]

/-- Two tables do not share a slot. -/
theorem slotOf_injective {p q : Word} {slot : ℕ} (hp : findPageTableRecord s p ≠ none)
    (hq : findPageTableRecord s q ≠ none) (hslot : s.slotOf p = some slot)
    (hslot' : s.slotOf q = some slot) : p = q := by
  have hrecord : ∀ {x : Word}, findPageTableRecord s x ≠ none → s.slotOf x = some slot →
      ∃ r, s.records[slot]? = some r ∧ r.physicalAddress = x := by
    intro x hx hs
    obtain ⟨r, hr⟩ := Option.ne_none_iff_exists'.mp hx
    have hne : x ≠ 0 := by
      rintro rfl
      cases hr
    rw [findPageTableRecord_of_ne_zero hne] at hr
    refine ⟨r, ?_, (find_spec hr).2.2⟩
    rw [SlotRegistry.find_eq_slot] at hr
    change (s.slotOf x).bind _ = _ at hr
    rwa [hs] at hr
  obtain ⟨r, hr, rfl⟩ := hrecord hp hslot
  obtain ⟨r', hr', rfl⟩ := hrecord hq hslot'
  rw [Option.some.inj (hr.symm.trans hr')]

/-- What releasing some registered tables does to the books. -/
structure ReleaseBooks (order : List Word) (s s' : Paging) : Prop where
  pmm : s'.pmm = order.foldl pmmFreeFrame s.pmm
  retired : ∀ p ∈ order, ∀ slot, s.slotOf p = some slot →
    s'.records[slot]? = s.records[slot]?.map fun r => { r with inUse := false }
  kept : ∀ slot, (∀ p ∈ order, s.slotOf p ≠ some slot) → s'.records[slot]? = s.records[slot]?

/-- Releasing tables one by one. -/
theorem foldl_releasePageTable_books {order : List Word} (hnodup : order.Nodup)
    (hregistered : ∀ p ∈ order, findPageTableRecord s p ≠ none) :
    ReleaseBooks order s (order.foldl releasePageTable s) := by
  induction order generalizing s with
  | nil => exact ⟨rfl, fun _ h => absurd h not_mem_nil, fun _ _ => rfl⟩
  | cons p order ih =>
      obtain ⟨hfresh, hrest⟩ := nodup_cons.mp hnodup
      have hp := hregistered p mem_cons_self
      obtain ⟨r, hr⟩ := Option.ne_none_iff_exists'.mp hp
      set s₁ := releasePageTable s p with hs₁
      have hpmm : s₁.pmm = pmmFreeFrame s.pmm p := by
        rw [hs₁, releasePageTable, hr]
        rfl
      have hrecords : s₁.records = amend inUse
          physicalAddress p (fun r => { r with inUse := false }) s.records := by
        rw [hs₁, releasePageTable, hr]
        rfl
      -- retiring the record of `p` leaves the others in their slots
      have hne : ∀ q ∈ order, q ≠ p := fun q hq heq => hfresh (heq ▸ hq)
      have hslot : ∀ q ∈ order, s₁.slotOf q = s.slotOf q := by
        intro q hq
        unfold Paging.slotOf
        rw [hrecords]
        exact SlotRegistry.slotOf_amend_of_ne
          (f := fun r : PageTableRecord => { r with inUse := false }) (fun _ => rfl) (hne q hq)
      have hfind : ∀ q ∈ order, findPageTableRecord s₁ q ≠ none := by
        intro q hq
        have hsame : SlotRegistry.find inUse physicalAddress q s₁.records =
            SlotRegistry.find inUse physicalAddress q s.records := by
          rw [hrecords]
          exact SlotRegistry.find_retire_of_ne
            (f := fun r : PageTableRecord => { r with inUse := false }) (fun _ => rfl) (hne q hq)
        unfold findPageTableRecord
        rw [hsame]
        exact hregistered q (mem_cons_of_mem p hq)
      have hslots : ∀ slot, s₁.records[slot]? =
          if s.slotOf p = some slot then s.records[slot]?.map fun r => { r with inUse := false }
          else s.records[slot]? := by
        intro slot
        rw [hrecords]
        exact SlotRegistry.getElem?_amend slot
      obtain ⟨hpmm', hretired, hkept⟩ := ih hrest hfind
      rw [foldl_cons, ← hs₁]
      refine ⟨?_, fun q hq slot hqs => ?_, fun slot hnot => ?_⟩
      · rw [hpmm', hpmm, foldl_cons]
      · rcases mem_cons.mp hq with rfl | hq
        · rw [hkept slot, hslots, if_pos hqs]
          intro q' hq' hslot'
          rw [hslot q' hq'] at hslot'
          have heq := slotOf_injective hp (hregistered q' (mem_cons_of_mem q hq')) hqs hslot'
          exact hfresh (heq ▸ hq')
        · rw [hretired q hq slot ((hslot q hq).trans hqs), hslots, if_neg]
          intro hps
          have heq := slotOf_injective hp (hregistered q (mem_cons_of_mem p hq)) hps hqs
          exact hfresh (heq ▸ hq)
      · rw [hkept slot, hslots, if_neg (hnot p mem_cons_self)]
        intro q hq
        rw [hslot q hq]
        exact hnot q (mem_cons_of_mem p hq)

/-! ## The whole call -/

/-- The tables reached from a root. -/
def treeTables (s : Paging) (root : Word) : List Word :=
  (treeNodes s.memory vmmLevelPml4 root).map Prod.snd

/-- The tables reached from a root form a tree: none is reached twice, each has a record
in use with the level it is reached at and the root as its owner, and no entry of the root
is huge. -/
structure TableTree (s : Paging) (root : Word) : Prop where
  distinct : (treeTables s root).Nodup
  registered : ∀ l q, (l, q) ∈ treeNodes s.memory vmmLevelPml4 root →
    ∃ r, findPageTableRecord s q = some r ∧ r.inUse = true ∧ r.level = l ∧ r.ownerPml4 = root
  pointers : ∀ index, isPresent (s.memory root index) = true → isHuge (s.memory root index) = false

/-- The tables reached from a root, and no others, have been released: their records are
no longer in use and each has been given back to the PMM once; all other records, frames
and tables are as before, up to the stamps of the check. -/
structure TreeReleased (root : Word) (s s' : Paging) : Prop where
  retired : ∀ q ∈ treeTables s root, ∀ slot, s.slotOf q = some slot →
    s'.records[slot]?.map PageTableRecord.unstamped =
      s.records[slot]?.map fun r => { r.unstamped with inUse := false }
  kept : ∀ slot, (∀ q ∈ treeTables s root, s.slotOf q ≠ some slot) →
    s'.records[slot]?.map PageTableRecord.unstamped = s.records[slot]?.map PageTableRecord.unstamped
  frames : ∃ order : List Word, order.Perm (treeTables s root) ∧
    s'.pmm = order.foldl pmmFreeFrame s.pmm
  data : ∀ frame, (∀ q ∈ treeTables s root, frameOf q ≠ frame) →
    s'.pmm.used frame = s.pmm.used frame
  contents : ∀ q, q ∉ treeTables s root → s'.memory q = s.memory q

theorem used_foldl_pmmFreeFrame (order : List Word) (pmm : Pmm) {frame : ℕ}
    (h : ∀ q ∈ order, frameOf q ≠ frame) :
    (order.foldl pmmFreeFrame pmm).used frame = pmm.used frame := by
  induction order generalizing pmm with
  | nil => rfl
  | cons q order ih =>
      rw [foldl_cons, ih _ fun q' hq' => h q' (mem_cons_of_mem q hq')]
      exact used_pmmFreeFrame_of_ne _ _ (h q mem_cons_self).symm

/-- The check sees the records as they are, up to stamps. -/
theorem Paging.Restamped.find (h : s.Restamped s') (p : Word) :
    (findPageTableRecord s' p).map PageTableRecord.unstamped =
      (findPageTableRecord s p).map PageTableRecord.unstamped := by
  have hmap : ∀ records : List PageTableRecord,
      (SlotRegistry.find inUse physicalAddress p records).map
        PageTableRecord.unstamped =
      SlotRegistry.find inUse physicalAddress p
        (records.map PageTableRecord.unstamped) :=
    fun records => (find_map (f := PageTableRecord.unstamped) (fun _ => rfl) (fun _ => rfl)
      p records).symm
  unfold findPageTableRecord
  split_ifs
  · rfl
  · rw [hmap, hmap, h.records]

theorem nextEpoch_fields (v : Vmm) :
    nextEpoch v =
      { v with
        paging := (nextEpoch v).paging, validationEpoch := (nextEpoch v).validationEpoch } := by
  unfold nextEpoch
  dsimp only
  split_ifs <;> rfl

/-- **The outcomes of `vmm_destroy_address_space`**, in any state.  A call that fails may
have left stamps; a call that succeeds has found a tree of tables and released it. -/
theorem destroy_outcome (v : Vmm) (root : Word) :
    (∃ paging epoch, vmmDestroyAddressSpace v root =
        (-1, { v with paging := paging, validationEpoch := epoch }) ∧ v.paging.Restamped paging) ∨
      ∃ record paging paging' epoch, root ≠ 0 ∧ root ≠ v.activeAddressSpacePml4 ∧
        findAddressSpaceRecord v root = some record ∧ record.state ≠ .active ∧
        TableTree v.paging root ∧ v.paging.Restamped paging ∧
        Paging.Frees (treeNodes v.paging.memory vmmLevelPml4 root) paging paging' ∧
        releaseTree false vmmLevelPml4 paging root = paging' ∧
        vmmDestroyAddressSpace v root =
          (0, { v.amendSpace root
              fun record => { record with state := .inactive, inUse := false } with
            paging := paging'
            validationEpoch := epoch
            lastClonedPml4 := if v.lastClonedPml4 = root then 0 else v.lastClonedPml4 }) := by
  have hstay : (∃ paging epoch, ((-1 : ℤ), v) =
      (-1, { v with paging := paging, validationEpoch := epoch }) ∧ v.paging.Restamped paging) :=
    ⟨v.paging, v.validationEpoch, rfl, .refl _⟩
  unfold vmmDestroyAddressSpace
  by_cases hzero : root = 0
  · rw [if_pos hzero]
    exact .inl hstay
  rw [if_neg hzero]
  by_cases hactive : root = v.activeAddressSpacePml4
  · rw [if_pos hactive]
    exact .inl hstay
  rw [if_neg hactive]
  cases hrecord : findAddressSpaceRecord v root with
  | none => exact .inl hstay
  | some record =>
      dsimp only
      by_cases hstate : record.state = .active
      · rw [if_pos hstate]
        exact .inl hstay
      rw [if_neg hstate]
      by_cases hroot : vmmVerifyPageTableRoot v.paging root = false
      · rw [if_pos hroot]
        exact .inl hstay
      rw [if_neg hroot]
      -- the check under a new epoch, and the release of what it has passed
      have hepoch := restamped_nextEpoch v
      have hspec := validateAddressSpaceTree_spec vmmLevelPml4 root (nextEpoch v).validationEpoch
        (nextEpoch v).paging root
      have hpointers := @validateAddressSpaceTree_root (nextEpoch v).paging root root
        (nextEpoch v).validationEpoch
      rw [nextEpoch_fields v]
      dsimp only
      generalize (nextEpoch v).paging = s at hepoch hspec hpointers ⊢
      generalize (nextEpoch v).validationEpoch = epoch at hspec hpointers ⊢
      cases hcheck : validateAddressSpaceTree vmmLevelPml4 s root root epoch with
      | mk ok paging =>
          dsimp only at hspec
          rw [hcheck] at hspec hpointers
          obtain ⟨hstamps, hmarks⟩ := hspec
          cases ok with
          | false => exact .inl ⟨paging, epoch, rfl, hepoch.trans hstamps⟩
          | true =>
              have hmarks := hmarks rfl
              have hmemory : paging.memory = v.paging.memory := (hepoch.trans hstamps).memory
              rw [hepoch.memory] at hmarks hpointers
              refine .inr ⟨record, paging, destroyAddressSpaceTree vmmLevelPml4 paging root, epoch,
                hzero, hactive, rfl, hstate, ⟨hmarks.distinct, fun l q hq => ?_, hpointers rfl⟩,
                hepoch.trans hstamps, ?_, rfl, ?_⟩
              · obtain ⟨r, hr, hl, ho, -⟩ := hmarks.registered l q hq
                have hfind := hepoch.find q
                rw [hr] at hfind
                obtain ⟨r', hr', hunstamped⟩ := Option.map_eq_some_iff.mp hfind.symm
                refine ⟨r', hr', ?_, ?_, ?_⟩
                · have hne : q ≠ 0 := by
                    rintro rfl
                    cases hr'
                  rw [findPageTableRecord_of_ne_zero hne] at hr'
                  exact (find_spec hr').2.1
                · exact (congrArg level hunstamped).trans hl
                · exact (congrArg ownerPml4 hunstamped).trans ho
              · rw [← hmemory]
                refine releaseTree_tree vmmLevelPml4 paging root ?_
                rw [hmemory]
                exact hmarks.distinct
              · dsimp only [Vmm.amendSpace]
                by_cases hlast : v.lastClonedPml4 = root
                · rw [if_pos hlast]
                  exact congrArg (Prod.mk 0) (if_pos hlast)
                · rw [if_neg hlast]
                  exact congrArg (Prod.mk 0) (if_neg hlast)

/-- **`vmm_destroy_address_space` is all or nothing**, whatever memory, the registry and
the epoch hold.  A call that fails changes no table, no record and no frame, stamps apart.
A call that succeeds has found the tables of the root to be a tree, and has released
exactly these. -/
theorem destroy_all_or_nothing (v : Vmm) (root : Word) :
    ((vmmDestroyAddressSpace v root).1 = -1 ∧
        v.paging.Restamped (vmmDestroyAddressSpace v root).2.paging ∧
        (vmmDestroyAddressSpace v root).2.addressSpaceRecords = v.addressSpaceRecords) ∨
      ((vmmDestroyAddressSpace v root).1 = 0 ∧ TableTree v.paging root ∧
        TreeReleased root v.paging (vmmDestroyAddressSpace v root).2.paging) := by
  rcases destroy_outcome v root with
    ⟨paging, epoch, heq, hstamps⟩ | ⟨record, paging, paging', epoch, -, -, -, -, htree,
      hstamps, hfrees, -, heq⟩
  · rw [heq]
    exact .inl ⟨rfl, hstamps, rfl⟩
  · rw [heq]
    refine .inr ⟨rfl, htree, ?_⟩
    obtain ⟨order, hperm, hbooks⟩ := hfrees.released
    have hregistered : ∀ q ∈ order, findPageTableRecord paging q ≠ none := by
      intro q hq
      obtain ⟨⟨l, q⟩, hn, rfl⟩ := mem_map.mp (hperm.mem_iff.mp hq)
      obtain ⟨r, hr, -⟩ := htree.registered l q hn
      have hfind := hstamps.find q
      rw [hr] at hfind
      obtain ⟨r', hr', -⟩ := Option.map_eq_some_iff.mp hfind
      rw [hr']
      exact Option.some_ne_none r'
    obtain ⟨hpmm, hretired, hkept⟩ :=
      foldl_releasePageTable_books (hperm.nodup_iff.mpr htree.distinct) hregistered
    have hpmm' : paging'.pmm = order.foldl pmmFreeFrame v.paging.pmm := by
      rw [hbooks, hpmm, hstamps.pmm]
    have hrecords : paging'.records =
        (order.foldl releasePageTable paging).records := by rw [hbooks]
    have hslots : ∀ slot : ℕ, paging.records[slot]?.map PageTableRecord.unstamped =
        v.paging.records[slot]?.map PageTableRecord.unstamped := by
      intro slot
      rw [← List.getElem?_map, hstamps.records, List.getElem?_map]
    refine ⟨fun q hq slot hslot => ?_, fun slot hnot => ?_, ⟨order, hperm, hpmm'⟩,
      fun frame hnot => ?_, fun q hq => ?_⟩
    · rw [hrecords, hretired q (hperm.mem_iff.mpr hq) slot ((hstamps.slotOf q).trans hslot)]
      have hslot' := congrArg (Option.map fun r : PageTableRecord => { r with inUse := false })
        (hslots slot)
      rw [Option.map_map, Option.map_map] at hslot'
      rw [Option.map_map]
      exact hslot'
    · rw [hrecords, hkept slot, hslots]
      intro q hq
      rw [hstamps.slotOf]
      exact hnot q (hperm.mem_iff.mp hq)
    · rw [hpmm']
      exact used_foldl_pmmFreeFrame order _ fun q hq => hnot q (hperm.mem_iff.mp hq)
    · rw [hfrees.memory.outside q fun l hl => hq (mem_map_of_mem (f := Prod.snd) hl),
        hstamps.memory]

end Batos
