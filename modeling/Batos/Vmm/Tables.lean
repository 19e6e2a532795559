import Batos.Lib.OwnershipForest
import Batos.Pmm.Run
import Batos.Vmm.Model

/-!
# The page tables as one map

The source spreads what it knows about a page table over the registry (level and
owner) and physical memory (the entries).  `Paging.tables` puts the two together:
a partial map from frame addresses to tables.  The elementary steps of `vmm.c`
act on this map in the obvious way — `insertTable`, `writeEntry`, `removeTable` —
and on the ownership forest underneath as the steps of `Lib/OwnershipForest.lean`.

`Paging.Inv` is the joint invariant of page-table memory, registry and PMM.  Its
parameter is the set of tables that are registered but not yet linked to a parent;
between operations it is empty.  The second half of the file proves, for each
elementary step, its exact effect and that it keeps the invariant.
-/

namespace Batos

open Function
open SlotRegistry (claim find find_eq_none_iff find_spec liveKeys)
open PageTableRecord (inUse physicalAddress)

variable {level : ℕ} {owner q entry c : Word} {t : Table} {index : Fin 512}

theorem nodup_tableIndices : tableIndices.Nodup := List.nodup_finRange 512

theorem mem_tableIndices (i : Fin 512) : i ∈ tableIndices := List.mem_finRange i

/-- Where a partial function has a value is not where it has none. -/
theorem ne_of_eq_none {α β : Type*} {f : α → Option β} {a b : α} {x : β} (ha : f a = some x)
    (hb : f b = none) : a ≠ b := by
  rintro rfl
  cases ha.symm.trans hb

/-- A page table: its record and its contents. -/
structure Table where
  level : ℕ
  owner : Word
  entries : Fin 512 → Word

/-- The child table an entry of a table of this level points to. -/
def entryChild (level : ℕ) (entry : Word) : Option Word :=
  if level = 0 then none
  else if isPresent entry = true ∧ isHuge entry = false then some (entryAddress entry)
  else none

/-- The registered page tables by frame address. -/
abbrev Tables := Word → Option Table

namespace Tables

/-- A new empty table. -/
def insertTable (T : Tables) (p : Word) (level : ℕ) (owner : Word) : Tables :=
  update T p (some ⟨level, owner, fun _ => 0⟩)

/-- Store one entry; addresses of unregistered frames are ignored. -/
def writeEntry (T : Tables) (p : Word) (index : Fin 512) (entry : Word) : Tables :=
  update T p
    ((T p).map fun t => { t with entries := update t.entries index entry })

/-- Forget a table. -/
def removeTable (T : Tables) (p : Word) : Tables := update T p none

/-- The ownership forest: levels and owners from the records, pointers from the
present non-huge entries above the lowest level. -/
def forest (T : Tables) : Forest Word (Fin 512) where
  info p := (T p).map fun t => (t.level, t.owner)
  edge p index := (T p).bind fun t => entryChild t.level (t.entries index)

variable {T : Tables} {p : Word} {t : Table}

/-- A table is a node of the forest. -/
theorem forest_info (h : T p = some t) : T.forest.info p = some (t.level, t.owner) := by
  simp [forest, h]

theorem forest_info_eq_none : T.forest.info p = none ↔ T p = none := by
  simp [forest]

/-- A node of the forest is a table. -/
theorem exists_of_forest_info (h : T.forest.info p = some (level, owner)) :
    ∃ t, T p = some t ∧ t.level = level ∧ t.owner = owner := by
  simpa [forest, Option.map_eq_some_iff] using h

/-- The edges of the forest are the links of the tables. -/
theorem forest_edge (h : T p = some t) (index : Fin 512) :
    T.forest.edge p index = entryChild t.level (t.entries index) := by
  simp [forest, h]

theorem writeEntry_self (h : T p = some t) (index : Fin 512) (entry : Word) :
    T.writeEntry p index entry p =
      some { t with entries := update t.entries index entry } := by
  rw [writeEntry, update_self, h, Option.map_some]

theorem writeEntry_of_ne (hne : q ≠ p) (index : Fin 512) (entry : Word) :
    T.writeEntry p index entry q = T q :=
  update_of_ne hne _ _

@[simp] theorem insertTable_self (T : Tables) (p : Word) (level : ℕ) (owner : Word) :
    T.insertTable p level owner p = some ⟨level, owner, fun _ => 0⟩ :=
  update_self _ _ _

theorem insertTable_of_ne (hne : q ≠ p) (level : ℕ) (owner : Word) :
    T.insertTable p level owner q = T q :=
  update_of_ne hne _ _

@[simp] theorem removeTable_self (T : Tables) (p : Word) : T.removeTable p p = none :=
  update_self _ _ _

theorem removeTable_of_ne (hne : q ≠ p) : T.removeTable p q = T q :=
  update_of_ne hne _ _

end Tables

/-- An empty entry links to nothing. -/
@[simp] theorem entryChild_zero (level : ℕ) : entryChild level 0#64 = none := by
  simp [entryChild]

theorem entryChild_of_not_present (h : isPresent entry = false) :
    entryChild level entry = none := by
  simp [entryChild, h]

theorem entryChild_of_huge (h : isHuge entry = true) :
    entryChild level entry = none := by
  simp [entryChild, h]

/-- An entry links to a table if it is present and no leaf. -/
theorem entryChild_eq_some :
    entryChild level entry = some c ↔
      level ≠ 0 ∧ isPresent entry = true ∧ isHuge entry = false ∧ entryAddress entry = c := by
  unfold entryChild
  split_ifs with h₀ h₁
  · simp [h₀]
  · simp [h₀, h₁.1, h₁.2]
  · simp only [false_iff]
    rintro ⟨-, hpresent, hhuge, -⟩
    exact h₁ ⟨hpresent, hhuge⟩

/-- What `vmm_map_page` stores for a new table links to it. -/
theorem entryChild_tableEntry (hlevel : level ≠ 0) (haligned : FrameAligned c) (flags : Word) :
    entryChild level (tableEntry c flags) = some c :=
  entryChild_eq_some.mpr ⟨hlevel, isPresent_tableEntry flags, isHuge_tableEntry haligned flags,
    entryAddress_tableEntry haligned flags⟩

/-! ## The elementary steps on the forest -/

namespace Tables

/-- Registering a table adds a node without edges. -/
theorem forest_insertTable (T : Tables) (p : Word) (level : ℕ) (owner : Word) :
    (T.insertTable p level owner).forest = T.forest.insertNode p level owner := by
  unfold forest Forest.insertNode insertTable
  congr 1
  · funext q
    by_cases hq : q = p
    · subst hq
      simp
    · simp [hq]
  · funext q index
    by_cases hq : q = p
    · subst hq
      simp
    · simp [hq]

/-- Dropping the record of a table removes its node. -/
theorem forest_removeTable (T : Tables) (p : Word) :
    (T.removeTable p).forest = T.forest.removeNode p := by
  unfold forest Forest.removeNode removeTable
  congr 1
  · funext q
    by_cases hq : q = p
    · subst hq
      simp
    · simp [hq]
  · funext q index
    by_cases hq : q = p
    · subst hq
      simp
    · simp [hq]

/-- Storing an entry sets one edge. -/
theorem forest_writeEntry {T : Tables} {p : Word} (h : T p = some t) (index : Fin 512)
    (entry : Word) :
    (T.writeEntry p index entry).forest =
      T.forest.setEdge p index (entryChild t.level entry) := by
  unfold forest Forest.setEdge writeEntry
  congr 1
  · funext q
    by_cases hq : q = p
    · subst hq
      simp [h]
    · simp [hq]
  · funext q i
    by_cases hq : q = p
    · subst hq
      by_cases hi : i = index
      · subst hi
        simp [h]
      · simp [h, hi]
    · simp [hq]

/-- A store that changes no pointer changes no forest. -/
theorem forest_writeEntry_of_child_eq {T : Tables} {p : Word} (h : T p = some t)
    (hsame : entryChild t.level entry = entryChild t.level (t.entries index)) :
    (T.writeEntry p index entry).forest = T.forest := by
  rw [forest_writeEntry h, hsame, ← forest_edge h index]
  unfold Forest.setEdge
  congr 1
  rw [update_eq_self, update_eq_self]
  rfl

end Tables

/-! ## The map of a state -/

/-- The registered page tables of a state. -/
def Paging.tables (s : Paging) : Tables := fun p =>
  (findPageTableRecord s p).map fun record => ⟨record.level, record.ownerPml4, s.memory p⟩

/-- The frame addresses with a record in use, in slot order. -/
def Paging.liveFrames (s : Paging) : List Word :=
  liveKeys inUse physicalAddress s.records

/-- The frames in use are read off the records. -/
theorem liveFrames_congr {s s' : Paging} (h : s'.records = s.records) :
    s'.liveFrames = s.liveFrames := by
  unfold Paging.liveFrames
  rw [h]

/-- A frame `vmm.c` does not own and the PMM will not hand out: a frame of the boot
loader, or one handed out to a client of the PMM. -/
def Paging.Foreign (s : Paging) (q : Word) : Prop :=
  q.toNat % 4096 = 0 ∧ s.tables q = none ∧ ¬ s.pmm.Free (frameOf q)

/-- The joint invariant of page-table memory, registry and PMM. -/
structure Paging.Inv (s : Paging) (loose : Set Word) : Prop where
  nodup : s.liveFrames.Nodup
  nonzero : (0 : Word) ∉ s.liveFrames
  wf : s.tables.forest.Wf vmmLevelPml4 loose
  frames : ∀ {p t}, s.tables p = some t → s.pmm.Releases p
  clean : ∀ {p t i}, s.tables p = some t → isPresent (t.entries i) = false → t.entries i = 0
  sound : s.pmm.Sound

/-- What holds of the registry and the PMM whatever the tables contain. -/
structure Paging.Booked (s : Paging) : Prop where
  nodup : s.liveFrames.Nodup
  nonzero : (0 : Word) ∉ s.liveFrames
  frames : ∀ {p t}, s.tables p = some t → s.pmm.Releases p
  roots : ∀ {p t}, s.tables p = some t → t.level = vmmLevelPml4 → t.owner = p
  sound : s.pmm.Sound

/-- The invariant contains the books. -/
theorem Paging.Inv.booked {s : Paging} {loose : Set Word} (h : s.Inv loose) : s.Booked where
  nodup := h.nodup
  nonzero := h.nonzero
  frames := h.frames
  roots := by
    intro p t ht hl
    refine h.wf.root_self ?_
    rw [Tables.forest_info ht, hl]
  sound := h.sound

/-- The invariant is the books, and what it says about the tables. -/
theorem Paging.Booked.inv {s : Paging} {loose : Set Word} (h : s.Booked)
    (hwf : s.tables.forest.Wf vmmLevelPml4 loose)
    (hclean : ∀ {p t i}, s.tables p = some t → isPresent (t.entries i) = false → t.entries i = 0) :
    s.Inv loose := ⟨h.nodup, h.nonzero, hwf, h.frames, hclean, h.sound⟩

/-- Two states that differ in nothing a caller can observe: the slot order of the
registry, the contents of free frames and the PMM counter aside. -/
structure Paging.Same (s s' : Paging) : Prop where
  tables : s'.tables = s.tables
  used : ∀ f, s'.pmm.used f = s.pmm.used f
  geometry : s.pmm.SameGeometry s'.pmm
  memory : ∀ q, ¬ s.pmm.Free (frameOf q) → s'.memory q = s.memory q

/-- Which frames are free is a matter of the bitmap. -/
theorem Pmm.SameGeometry.free_iff {s t : Pmm} (hgeom : s.SameGeometry t)
    (hused : ∀ f, t.used f = s.used f) (f : ℕ) : t.Free f ↔ s.Free f := by
  unfold Pmm.Free
  rw [hgeom.totalFrames, hused]

namespace Paging.Same

variable {s s' s'' : Paging}

@[refl] theorem refl (s : Paging) : s.Same s := ⟨rfl, fun _ => rfl, .refl _, fun _ _ => rfl⟩

/-- A page that is nobody's stays so. -/
theorem foreign (h : s.Same s') (hq : s.Foreign q) :
    s'.Foreign q ∧ s'.memory q = s.memory q :=
  ⟨⟨hq.1, by rw [h.tables]; exact hq.2.1, fun hfree =>
    hq.2.2 ((h.geometry.free_iff h.used _).mp hfree)⟩, h.memory q hq.2.2⟩

end Paging.Same

section Records

variable {s : Paging} {p q : Word} {t : Table}

theorem findPageTableRecord_of_ne_zero (hp : p ≠ 0) :
    findPageTableRecord s p =
      find inUse physicalAddress p s.records :=
  if_neg hp

/-- A table is a record in use and the words in its frame. -/
theorem tables_eq_some :
    s.tables p = some t ↔
      ∃ record, findPageTableRecord s p = some record ∧ record.level = t.level ∧
        record.ownerPml4 = t.owner ∧ s.memory p = t.entries := by
  obtain ⟨level, owner, entries⟩ := t
  simp [Paging.tables, Option.map_eq_some_iff]

theorem tables_eq_none : s.tables p = none ↔ findPageTableRecord s p = none := by
  simp [Paging.tables]

/-- The contents of a registered table are what memory holds there. -/
theorem memory_of_tables (h : s.tables p = some t) : s.memory p = t.entries := by
  obtain ⟨_, -, -, -, hmem⟩ := tables_eq_some.mp h
  exact hmem

/-- A table keeps its level and its owner as long as the registry is not touched. -/
theorem tables_of_records {s : Paging} (s' : Paging) (ht : s.tables q = some t)
    (hrecords : s'.records = s.records) :
    ∃ t', s'.tables q = some t' ∧ t'.level = t.level ∧ t'.owner = t.owner := by
  obtain ⟨record, hfind, hl, ho, -⟩ := tables_eq_some.mp ht
  refine ⟨⟨record.level, record.ownerPml4, s'.memory q⟩,
    tables_eq_some.mpr ⟨record, ?_, rfl, rfl, rfl⟩, hl, ho⟩
  unfold findPageTableRecord at hfind ⊢
  rw [hrecords]
  exact hfind

/-- Every table is in a frame in use. -/
theorem mem_liveFrames_of_tables (h : s.tables p ≠ none) : p ∈ s.liveFrames := by
  by_contra hmem
  refine h (tables_eq_none.mpr ?_)
  unfold findPageTableRecord
  split
  · rfl
  · exact find_eq_none_iff.mpr hmem

theorem tables_ne_none_of_mem (hzero : (0 : Word) ∉ s.liveFrames) (h : p ∈ s.liveFrames) :
    s.tables p ≠ none := by
  rw [Ne, tables_eq_none, findPageTableRecord_of_ne_zero (by rintro rfl; exact hzero h),
    find_eq_none_iff]
  exact fun hnot => hnot h

/-- `verify_page_table_record` reads the map. -/
theorem verifyPageTableRecord_iff :
    verifyPageTableRecord s p level owner = true ↔
      ∃ t, s.tables p = some t ∧ t.level = level ∧ t.owner = owner := by
  unfold verifyPageTableRecord
  cases hfind : findPageTableRecord s p with
  | none => simp [tables_eq_none.mpr hfind]
  | some record =>
      have hlive : record.inUse = true := by
        unfold findPageTableRecord at hfind
        split at hfind
        · cases hfind
        · exact (find_spec hfind).2.1
      have htab : s.tables p = some ⟨record.level, record.ownerPml4, s.memory p⟩ := by
        simp [Paging.tables, hfind]
      simp [hlive, htab]

/-- **The roots the code accepts**: the tables of the top level that own themselves. -/
theorem vmmVerifyPageTableRoot_iff :
    vmmVerifyPageTableRoot s p = true ↔
      ∃ t, s.tables p = some t ∧ t.level = vmmLevelPml4 ∧ t.owner = p := by
  unfold vmmVerifyPageTableRoot
  split
  · next hzero =>
    have hnone : s.tables p = none := by
      rw [tables_eq_none, findPageTableRecord, if_pos hzero]
    simp [hnone]
  · exact verifyPageTableRecord_iff

end Records

/-! ## Effects of the elementary steps -/

theorem Pmm.Releases.of_sameGeometry {s t : Pmm} {a : Word} (h : s.Releases a)
    (hgeom : s.SameGeometry t) (hused : t.used (frameOf a) = true) : t.Releases a where
  installed := by
    rw [hgeom.frameBitmap]
    exact h.installed
  nonzero := h.nonzero
  aligned := h.aligned
  inRange := by
    rw [hgeom.totalFrames]
    exact h.inRange
  used := hused
  notBitmap := by
    rw [hgeom.isBitmapFrame_iff]
    exact h.notBitmap

/-- Frame addresses the PMM manages fit a page-table entry. -/
theorem Pmm.Releases.frameAligned {s : Pmm} {a : Word} (h : s.Releases a) (hsound : s.Sound) :
    FrameAligned a := by
  refine frameAligned_of_lt h.aligned ?_
  have hrange := h.inRange
  have hle := hsound.total_le
  unfold frameOf at hrange
  omega

section Steps

variable {s s' : Paging} {loose : Set Word} {p : Word} {t : Table}

/-- A store into memory is a store into the table that is there. -/
theorem tables_write (s : Paging) (p : Word) (index : Fin 512) (entry : Word) :
    (s.write p index entry).tables = s.tables.writeEntry p index entry := by
  funext q
  change (findPageTableRecord s q).map _ = _
  by_cases hq : q = p
  · subst hq
    unfold Tables.writeEntry
    rw [update_self]
    unfold Paging.tables Paging.write
    cases findPageTableRecord s q with
    | none => rfl
    | some record => simp
  · rw [Tables.writeEntry_of_ne hq]
    simp [Paging.tables, Paging.write, hq]

theorem memory_write_self (s : Paging) (p : Word) (i : Fin 512) (entry : Word) :
    (s.write p i entry).memory p i = entry := by
  simp [Paging.write]

theorem memory_write_of_ne (hne : q ≠ p) (index : Fin 512) (entry : Word) :
    (s.write p index entry).memory q = s.memory q :=
  update_of_ne hne _ _

/-- The books depend on what `Same` keeps, and on the registry's keys. -/
theorem Paging.Booked.of_same (h : s.Booked) (hsame : s.Same s')
    (hlive : s'.liveFrames = s.liveFrames) :
    s'.Booked := by
  refine ⟨hlive ▸ h.nodup, hlive ▸ h.nonzero, fun ht => ?_, fun ht => ?_, ?_⟩
  · rw [hsame.tables] at ht
    exact (h.frames ht).of_sameGeometry hsame.geometry ((hsame.used _).trans (h.frames ht).used)
  · rw [hsame.tables] at ht
    exact h.roots ht
  · exact h.sound.of_sameGeometry hsame.geometry fun f _ hused => (hsame.used f).trans hused

/-- The invariant depends on nothing but what two such states share. -/
theorem Paging.Inv.of_same (h : s.Inv loose) (hsame : s.Same s')
    (hlive : s'.liveFrames = s.liveFrames) :
    s'.Inv loose := by
  refine (h.booked.of_same hsame hlive).inv ?_ fun {p t i} ht => ?_
  · rw [hsame.tables]
    exact h.wf
  · rw [hsame.tables] at ht
    exact h.clean ht

/-- A free frame has no table. -/
theorem Paging.Booked.tables_of_free (h : s.Booked) (hfree : s.pmm.Free (frameOf p)) :
    s.tables p = none := by
  cases htab : s.tables p with
  | none => rfl
  | some t =>
      have hused := (h.frames htab).used
      rw [hfree.2.2] at hused
      cases hused

/-- There is no table in a free frame. -/
theorem Paging.Inv.tables_of_free (h : s.Inv loose) (hfree : s.pmm.Free (frameOf p)) :
    s.tables p = none := h.booked.tables_of_free hfree

/-- The two outcomes of `register_page_table` for a frame without a record. -/
theorem registerPageTable_cases (hnodup : s.liveFrames.Nodup) (hnonzero : (0 : Word) ∉ s.liveFrames)
    (hp : p ≠ 0) (hfresh : s.tables p = none) (hlevel : level ≤ vmmLevelPml4) (owner : Word) :
    registerPageTable s p level owner = none ∨
      ∃ s', registerPageTable s p level owner = some s' ∧ s'.pmm = s.pmm ∧
        s'.memory = s.memory ∧ s'.liveFrames.Nodup ∧ (0 : Word) ∉ s'.liveFrames ∧
        s'.tables = update s.tables p (some ⟨level, owner, s.memory p⟩) := by
  unfold registerPageTable
  rw [if_neg hp, if_neg (Nat.not_lt.mpr hlevel)]
  set fill : PageTableRecord → PageTableRecord := fun record =>
    { record with physicalAddress := p, ownerPml4 := owner, level := level, inUse := true }
  cases hclaim : claim inUse vmmMaxPageTables {} fill s.records with
  | none => exact .inl rfl
  | some records =>
      refine .inr ⟨_, rfl, rfl, rfl, ?_⟩
      have hkey : p ∉ s.liveFrames := by
        intro hmem
        exact tables_ne_none_of_mem hnonzero hmem hfresh
      have hperm : (liveKeys inUse physicalAddress
          records).Perm (p :: s.liveFrames) :=
        SlotRegistry.liveKeys_claim_perm (fun _ => rfl) (fun _ => rfl) hclaim
      refine ⟨hperm.nodup_iff.mpr (List.nodup_cons.mpr ⟨hkey, hnodup⟩), ?_, ?_⟩
      · intro hmem
        rcases List.mem_cons.mp (hperm.mem_iff.mp hmem) with hzero | hold
        · exact hp hzero.symm
        · exact hnonzero hold
      · funext q
        by_cases hq : q = p
        · subst hq
          obtain ⟨a, hfind⟩ : ∃ a, find inUse
              physicalAddress q records = some (fill a) :=
            SlotRegistry.find_claim_self (fun _ => rfl) (fun _ => rfl) hclaim hnodup hkey
          rw [update_self]
          unfold Paging.tables
          rw [findPageTableRecord_of_ne_zero hp, hfind]
          rfl
        · rw [update_of_ne hq]
          unfold Paging.tables findPageTableRecord
          split
          · rfl
          · rw [SlotRegistry.find_claim_of_ne (k := p) (fun _ => rfl) hclaim hq]

/-! ### Allocation -/

/-- The address of a free frame does not wrap. -/
theorem Pmm.Sound.lt_of_free {s : Pmm} (h : s.Sound) {f : ℕ} (hfree : s.Free f) : f < 2 ^ 52 := by
  have hle := h.total_le
  have hrange := hfree.2.1
  omega

/-- A frame just allocated can be released again. -/
theorem Pmm.Sound.releases_reserve {s : Pmm} (h : s.Sound) (hinstalled : s.frameBitmap ≠ 0)
    {f : ℕ} (hfree : s.Free f) : (s.reserve f).Releases (frameAddress f) := by
  have hlt := h.lt_of_free hfree
  refine ⟨hinstalled, frameAddress_ne_zero hlt hfree.1, frameAddress_aligned hlt, ?_, ?_, ?_⟩
  · rw [frameOf_frameAddress hlt]
    exact hfree.2.1
  · rw [frameOf_frameAddress hlt, Pmm.used_reserve]
    simp
  · rw [frameOf_frameAddress hlt]
    intro hown
    have hused := h.bitmap_used hinstalled f hown
    rw [hfree.2.2] at hused
    cases hused

/-- What a successful `allocate_page_table` does: one free frame becomes an empty
table. -/
structure Paging.Allocates (s : Paging) (c : Word) (level : ℕ) (owner : Word) (s' : Paging) :
    Prop where
  nonzero : c ≠ 0
  aligned : FrameAligned c
  free : s.pmm.Free (frameOf c)
  tables : s'.tables = s.tables.insertTable c level owner
  pmm : s'.pmm = s.pmm.reserve (frameOf c)
  memory : ∀ q, q ≠ c → s'.memory q = s.memory q

theorem Pmm.used_reserve_of_used {s : Pmm} {g : ℕ} (h : s.used g = true) (f : ℕ) :
    (s.reserve f).used g = true := by
  rw [Pmm.used_reserve, h, Bool.or_true]

/-- The new table is empty. -/
theorem Paging.Allocates.tables_self (h : s.Allocates c level owner s') :
    s'.tables c = some ⟨level, owner, fun _ => 0⟩ := by
  rw [h.tables, Tables.insertTable_self]

theorem Paging.Allocates.tables_of_ne (h : s.Allocates c level owner s') (hq : q ≠ c) :
    s'.tables q = s.tables q := by
  rw [h.tables, Tables.insertTable_of_ne hq]

/-- Allocating a table keeps the books. -/
theorem Paging.Allocates.booked (h : s.Booked) (halloc : s.Allocates c level owner s')
    (hinstalled : s.pmm.frameBitmap ≠ 0) (hroot : level = vmmLevelPml4 → owner = c)
    (hnodup : s'.liveFrames.Nodup) (hnonzero : (0 : Word) ∉ s'.liveFrames) : s'.Booked := by
  refine ⟨hnodup, hnonzero, fun {p t} ht => ?_, fun {p t} ht hl => ?_, ?_⟩
  · rw [halloc.pmm]
    by_cases hp : p = c
    · subst hp
      have hrel := h.sound.releases_reserve hinstalled halloc.free
      rwa [frameAddress_frameOf halloc.aligned.toNat_mod] at hrel
    · rw [halloc.tables_of_ne hp] at ht
      exact (h.frames ht).of_sameGeometry (s.pmm.sameGeometry_reserve _)
        (Pmm.used_reserve_of_used (h.frames ht).used _)
  · by_cases hp : p = c
    · subst hp
      obtain rfl := Option.some.inj (halloc.tables_self.symm.trans ht)
      exact hroot hl
    · rw [halloc.tables_of_ne hp] at ht
      exact h.roots ht hl
  · rw [halloc.pmm]
    exact h.sound.reserve _

/-- The new table is loose. -/
theorem Paging.Allocates.inv (h : s.Inv loose) (halloc : s.Allocates c level owner s')
    (hinstalled : s.pmm.frameBitmap ≠ 0) (hlevel : level ≤ vmmLevelPml4)
    (hroot : level = vmmLevelPml4 → owner = c) (hnodup : s'.liveFrames.Nodup)
    (hnonzero : (0 : Word) ∉ s'.liveFrames) :
    s'.Inv (insert c loose) := by
  refine (halloc.booked h.booked hinstalled hroot hnodup hnonzero).inv ?_ fun {p t i} ht hnot => ?_
  · rw [halloc.tables, Tables.forest_insertTable]
    exact h.wf.insertNode (Tables.forest_info_eq_none.mpr (h.tables_of_free halloc.free)) hlevel
      hroot
  · by_cases hp : p = c
    · subst hp
      obtain rfl := Option.some.inj (halloc.tables_self.symm.trans ht)
      rfl
    · rw [halloc.tables_of_ne hp] at ht
      exact h.clean ht hnot

/-- The two outcomes of `allocate_page_table`, as far as the registry and the PMM go. -/
theorem allocatePageTable_outcome (h : s.Booked) (level : ℕ) (owner : Word)
    (hlevel : level ≤ vmmLevelPml4) (hroot : level = vmmLevelPml4 → owner = 0) :
    (∃ s', allocatePageTable s level owner = (none, s') ∧ s.Same s' ∧ s'.records = s.records) ∨
      ∃ c s', allocatePageTable s level owner = (some c, s') ∧
        s.Allocates c level (if level = vmmLevelPml4 then c else owner) s' ∧
        s.pmm.frameBitmap ≠ 0 ∧ s'.liveFrames.Nodup ∧ (0 : Word) ∉ s'.liveFrames := by
  unfold allocatePageTable
  rcases pmmAllocFrame_cases s.pmm with ⟨heq, -⟩ | ⟨f, hfree, -, hinstalled, heq⟩
  · refine .inl ⟨s, ?_, .refl s, rfl⟩
    simp only [heq, if_true]
  · have hrel := h.sound.releases_reserve hinstalled hfree
    set c := frameAddress f with hc
    have hframe : frameOf c = f := frameOf_frameAddress (h.sound.lt_of_free hfree)
    have hnone : s.tables c = none := h.tables_of_free (by rwa [hframe])
    have howner : (if level = vmmLevelPml4 ∧ owner = 0 then c else owner) =
        if level = vmmLevelPml4 then c else owner := by
      by_cases hl : level = vmmLevelPml4
      · rw [if_pos ⟨hl, hroot hl⟩, if_pos hl]
      · rw [if_neg fun hand => hl hand.1, if_neg hl]
    simp only [heq, if_neg hrel.nonzero, howner]
    set zeroed : Paging := zeroPage { s with pmm := s.pmm.reserve f } c with hzeroed
    have hmemory : ∀ q, q ≠ c → zeroed.memory q = s.memory q := fun q hq =>
      update_of_ne hq _ _
    have htables : zeroed.tables = s.tables := by
      funext q
      by_cases hq : q = c
      · subst hq
        rw [hnone, tables_eq_none]
        change findPageTableRecord s _ = none
        exact tables_eq_none.mp hnone
      · unfold Paging.tables
        rw [hmemory q hq]
        rfl
    rcases registerPageTable_cases (s := zeroed) h.nodup h.nonzero hrel.nonzero
      (by rw [htables, hnone]) hlevel (if level = vmmLevelPml4 then c else owner) with
      hreg | ⟨s', hreg, hpmm, hmem, hnodup, hnonzero, htab⟩
    · -- no slot is left: the frame goes back
      rw [hreg]
      refine .inl ⟨_, rfl, ?_, rfl⟩
      have hrelease : pmmFreeFrame zeroed.pmm c = (s.pmm.reserve f).release f := by
        have := pmmFreeFrame_of_releases hrel
        rwa [hframe] at this
      refine ⟨htables, fun g => ?_, ?_, fun q hq => ?_⟩
      · change (pmmFreeFrame zeroed.pmm c).used g = _
        rw [hrelease, Pmm.used_release, Pmm.used_reserve]
        by_cases hg : g = f
        · rw [hg, hfree.2.2]
          simp
        · simp [hg]
      · change s.pmm.SameGeometry (pmmFreeFrame zeroed.pmm c)
        rw [hrelease]
        exact ⟨rfl, rfl, rfl, rfl⟩
      · refine hmemory q ?_
        rintro rfl
        exact hq (by rwa [hframe])
    · rw [hreg]
      refine .inr ⟨c, s', rfl, ?_, hinstalled, hnodup, hnonzero⟩
      refine ⟨hrel.nonzero, hrel.frameAligned (h.sound.reserve f), by rwa [hframe], ?_, ?_, ?_⟩
      · rw [htab, htables]
        unfold Tables.insertTable
        congr 2
        exact Table.mk.injEq .. ▸ ⟨rfl, rfl, update_self _ _ _⟩
      · rw [hpmm, hframe]
        rfl
      · intro q hq
        rw [hmem]
        exact hmemory q hq

/-- **The two outcomes of `allocate_page_table`.**  PMM exhaustion and a full
registry leave nothing behind. -/
theorem allocatePageTable_cases (h : s.Inv loose) (level : ℕ) (owner : Word)
    (hlevel : level ≤ vmmLevelPml4) (hroot : level = vmmLevelPml4 → owner = 0) :
    (∃ s', allocatePageTable s level owner = (none, s') ∧ s'.Inv loose ∧ s.Same s') ∨
      ∃ c s', allocatePageTable s level owner = (some c, s') ∧
        s.Allocates c level (if level = vmmLevelPml4 then c else owner) s' ∧
        s'.Inv (insert c loose) := by
  rcases allocatePageTable_outcome h.booked level owner hlevel hroot with
    ⟨s', heq, hsame, hrecords⟩ | ⟨c, s', heq, halloc, hinstalled, hnodup, hnonzero⟩
  · exact .inl ⟨s', heq, h.of_same hsame (liveFrames_congr hrecords), hsame⟩
  · refine .inr ⟨c, s', heq, halloc, halloc.inv h hinstalled hlevel ?_ hnodup hnonzero⟩
    intro hl
    rw [if_pos hl]

/-! ### Release -/

/-- The effect of `release_page_table` on a registered table. -/
theorem releasePageTable_effect (h : s.Booked) (htab : s.tables p = some t) :
    (releasePageTable s p).tables = s.tables.removeTable p ∧
      (releasePageTable s p).pmm = s.pmm.release (frameOf p) ∧
      (releasePageTable s p).memory = s.memory ∧
      (releasePageTable s p).liveFrames.Sublist s.liveFrames := by
  obtain ⟨record, hfind, -⟩ := tables_eq_some.mp htab
  have hrel := h.frames htab
  unfold releasePageTable
  rw [hfind]
  refine ⟨?_, pmmFreeFrame_of_releases hrel, rfl,
    SlotRegistry.liveKeys_retire_sublist fun _ => rfl⟩
  funext q
  by_cases hq : q = p
  · subst hq
    rw [Tables.removeTable_self, tables_eq_none, findPageTableRecord_of_ne_zero hrel.nonzero]
    exact SlotRegistry.find_retire_self (fun _ => rfl) h.nodup
  · rw [Tables.removeTable_of_ne hq]
    unfold Paging.tables findPageTableRecord
    split
    · rfl
    · dsimp only [Paging.amend]
      rw [SlotRegistry.find_retire_of_ne (fun _ => rfl) hq]

/-- What is registered after a release was registered before, and is another table. -/
theorem tables_of_release (h : s.Booked) (htab : s.tables p = some t) {u : Table}
    (hq : (releasePageTable s p).tables q = some u) : q ≠ p ∧ s.tables q = some u := by
  rw [(releasePageTable_effect h htab).1] at hq
  have hne : q ≠ p := by
    rintro rfl
    rw [Tables.removeTable_self] at hq
    cases hq
  rw [Tables.removeTable_of_ne hne] at hq
  exact ⟨hne, hq⟩

/-- Releasing a table keeps the books. -/
theorem Paging.Booked.release (h : s.Booked) (htab : s.tables p = some t) :
    (releasePageTable s p).Booked := by
  obtain ⟨-, hpmm, -, hsub⟩ := releasePageTable_effect h htab
  refine ⟨h.nodup.sublist hsub, fun hmem => h.nonzero (hsub.subset hmem), fun {q u} hq => ?_,
    fun hq => h.roots (tables_of_release h htab hq).2, ?_⟩
  · obtain ⟨hne, hq⟩ := tables_of_release h htab hq
    have hrel := h.frames hq
    rw [hpmm]
    refine hrel.of_sameGeometry (s.pmm.sameGeometry_release _) ?_
    have hframe : frameOf q ≠ frameOf p := fun hf =>
      hne (frameOf_inj hrel.aligned (h.frames htab).aligned hf)
    rw [Pmm.used_release, hrel.used]
    simp [hframe]
  · rw [hpmm, ← pmmFreeFrame_of_releases (h.frames htab)]
    exact h.sound.free p

/-- Releasing a loose table without children keeps the invariant. -/
theorem inv_releasePageTable (h : s.Inv (insert p loose)) (hp : p ∉ loose)
    (htab : s.tables p = some t) (hleaf : ∀ i, entryChild t.level (t.entries i) = none) :
    (releasePageTable s p).Inv loose := by
  refine (h.booked.release htab).inv ?_ fun hq => h.clean (tables_of_release h.booked htab hq).2
  rw [(releasePageTable_effect h.booked htab).1, Tables.forest_removeTable]
  refine h.wf.removeNode hp fun i => ?_
  rw [Tables.forest_edge htab]
  exact hleaf i

/-! ### Stores -/

/-- The books do not depend on the contents of the tables. -/
theorem Paging.Booked.of_memory (h : s.Booked) (memory : Word → Fin 512 → Word) :
    ({ s with memory := memory } : Paging).Booked := by
  refine ⟨h.nodup, h.nonzero, fun ht => ?_, fun ht hl => ?_, h.sound⟩
  · obtain ⟨t, ht, -⟩ := tables_of_records s ht rfl
    exact h.frames ht
  · obtain ⟨t, ht, hl', ho⟩ := tables_of_records s ht rfl
    exact ho.symm.trans (h.roots ht (hl'.trans hl))

/-- A store keeps the invariant when it keeps the forest and writes no junk into a
cleared entry. -/
theorem Paging.Inv.write {loose' : Set Word} (h : s.Inv loose) (htab : s.tables p = some t)
    (hclean : isPresent entry = false → entry = 0)
    (hwf : (s.tables.writeEntry p index entry).forest.Wf vmmLevelPml4 loose') :
    (s.write p index entry).Inv loose' := by
  rw [← tables_write] at hwf
  refine (h.booked.of_memory _).inv hwf fun {q u i} hq hnot => ?_
  change (s.write p index entry).tables q = some u at hq
  rw [tables_write] at hq
  by_cases hqp : q = p
  · subst hqp
    rw [Tables.writeEntry_self htab] at hq
    obtain rfl := Option.some.inj hq
    by_cases hi : i = index
    · subst hi
      simp only [update_self] at hnot ⊢
      exact hclean hnot
    · simp only [update_of_ne hi] at hnot ⊢
      exact h.clean htab hnot
  · rw [Tables.writeEntry_of_ne hqp] at hq
    exact h.clean hq hnot

/-- Storing a leaf, or clearing one. -/
theorem inv_write_leaf (h : s.Inv loose) (htab : s.tables p = some t)
    (hclean : isPresent entry = false → entry = 0)
    (hold : entryChild t.level (t.entries index) = none) (hnew : entryChild t.level entry = none) :
    (s.write p index entry).Inv loose := by
  refine h.write htab hclean ?_
  rw [Tables.forest_writeEntry_of_child_eq htab (hnew.trans hold.symm)]
  exact h.wf

/-- Linking a loose table into an empty entry. -/
theorem inv_write_link {u : Table} (h : s.Inv (insert c loose)) (hc : c ∉ loose)
    (htab : s.tables p = some t) (hctab : s.tables c = some u)
    (hold : entryChild t.level (t.entries index) = none) (hnew : entryChild t.level entry = some c)
    (hlevel : t.level = u.level + 1) (howner : t.owner = u.owner) :
    (s.write p index entry).Inv loose := by
  obtain ⟨-, hpresent, -, -⟩ := entryChild_eq_some.mp hnew
  refine h.write htab (fun hnot => absurd hpresent (by rw [hnot]; decide)) ?_
  rw [Tables.forest_writeEntry htab, hnew]
  refine h.wf.link (l := u.level) (o := u.owner) hc ?_ ?_ (Tables.forest_info hctab)
  · rw [Tables.forest_edge htab]
    exact hold
  · rw [Tables.forest_info htab, hlevel, howner]

/-- Clearing an entry that points to a table leaves that table loose. -/
theorem inv_write_unlink (h : s.Inv loose) (htab : s.tables p = some t)
    (hold : entryChild t.level (t.entries index) = some c) :
    (s.write p index 0).Inv (insert c loose) := by
  refine h.write htab (fun _ => rfl) ?_
  rw [Tables.forest_writeEntry htab]
  have hnone : entryChild t.level 0 = none := entryChild_zero t.level
  rw [hnone]
  refine h.wf.unlink ?_
  rw [Tables.forest_edge htab]
  exact hold

end Steps

/-! ## Clients of the PMM -/

section Clients

variable {s : Paging} {a q : Word} {f : ℕ}

/-- A change of the PMM that keeps the frames of the page tables used. -/
theorem Paging.Booked.of_pmm (h : s.Booked) {pmm : Pmm} (hgeom : s.pmm.SameGeometry pmm)
    (hsound : pmm.Sound) (hused : ∀ {p t}, s.tables p = some t → pmm.used (frameOf p) = true) :
    ({ s with pmm := pmm } : Paging).Booked :=
  ⟨h.nodup, h.nonzero, fun ht => (h.frames ht).of_sameGeometry hgeom (hused ht), h.roots, hsound⟩

/-- A client takes a frame. -/
theorem Paging.Booked.reserve (h : s.Booked) (f : ℕ) :
    ({ s with pmm := s.pmm.reserve f } : Paging).Booked :=
  h.of_pmm (s.pmm.sameGeometry_reserve f) (h.sound.reserve f) fun ht =>
    Pmm.used_reserve_of_used (h.frames ht).used f

/-- A client may take a frame. -/
theorem Paging.Inv.reserve (h : s.Inv ∅) (f : ℕ) :
    ({ s with pmm := s.pmm.reserve f } : Paging).Inv ∅ := (h.booked.reserve f).inv h.wf h.clean

theorem Paging.Foreign.reserve (hq : s.Foreign q) (f : ℕ) :
    ({ s with pmm := s.pmm.reserve f } : Paging).Foreign q := by
  refine ⟨hq.1, hq.2.1, fun hfree => hq.2.2 ⟨hfree.1, hfree.2.1, ?_⟩⟩
  have hclear := hfree.2.2
  rw [Pmm.used_reserve, Bool.or_eq_false_iff] at hclear
  exact hclear.2

/-- The frame a client takes is nobody else's. -/
theorem Paging.Booked.foreign_reserve (h : s.Booked) (hinstalled : s.pmm.frameBitmap ≠ 0)
    (hfree : s.pmm.Free f) :
    ({ s with pmm := s.pmm.reserve f } : Paging).Foreign (frameAddress f) := by
  have hrel := h.sound.releases_reserve hinstalled hfree
  refine ⟨hrel.aligned, h.tables_of_free ?_, fun hfree' => ?_⟩
  · rw [frameOf_frameAddress (h.sound.lt_of_free hfree)]
    exact hfree
  · have hclear : (s.pmm.reserve f).used (frameOf (frameAddress f)) = false := hfree'.2.2
    rw [hrel.used] at hclear
    cases hclear

theorem used_pmmFreeFrame_of_address_ne (pmm : Pmm) (ha : a.toNat % 4096 = 0)
    (hq : q.toNat % 4096 = 0) (hne : q ≠ a) :
    (pmmFreeFrame pmm a).used (frameOf q) = pmm.used (frameOf q) :=
  used_pmmFreeFrame_of_ne _ _ fun hf => hne (frameOf_inj hq ha hf)

/-- A client gives a frame back. -/
theorem Paging.Booked.free (h : s.Booked) (ha : s.Foreign a) :
    ({ s with pmm := pmmFreeFrame s.pmm a } : Paging).Booked := by
  refine h.of_pmm (sameGeometry_pmmFreeFrame s.pmm a) (h.sound.free a) fun {p t} ht => ?_
  have hne : p ≠ a := ne_of_eq_none ht ha.2.1
  rw [used_pmmFreeFrame_of_address_ne _ ha.1 (h.frames ht).aligned hne]
  exact (h.frames ht).used

/-- A client may give its frame back. -/
theorem Paging.Inv.free (h : s.Inv ∅) (ha : s.Foreign a) :
    ({ s with pmm := pmmFreeFrame s.pmm a } : Paging).Inv ∅ := (h.booked.free ha).inv h.wf h.clean

/-- Giving one page back leaves the other clients' alone. -/
theorem Paging.Foreign.free (hq : s.Foreign q) (ha : a.toNat % 4096 = 0) (hne : q ≠ a) :
    ({ s with pmm := pmmFreeFrame s.pmm a } : Paging).Foreign q := by
  refine ⟨hq.1, hq.2.1, fun hfree => hq.2.2 ⟨hfree.1, ?_, ?_⟩⟩
  · rw [← (sameGeometry_pmmFreeFrame s.pmm a).totalFrames]
    exact hfree.2.1
  · rw [← used_pmmFreeFrame_of_address_ne s.pmm ha hq.1 hne]
    exact hfree.2.2

/-- A store into a frame that is no table is not seen by the map of tables. -/
theorem Paging.Foreign.tables_write (ha : s.Foreign a) (index : Fin 512) (value : Word) :
    (s.write a index value).tables = s.tables := by
  rw [Batos.tables_write]
  unfold Tables.writeEntry
  rw [ha.2.1, Option.map_none, ← ha.2.1, update_eq_self]

/-- A client stores into a frame of its own. -/
theorem Paging.Inv.store (h : s.Inv ∅) (ha : s.Foreign a) (index : Fin 512) (value : Word) :
    (s.write a index value).Inv ∅ := by
  have htables := ha.tables_write index value
  exact ⟨h.nodup, h.nonzero, by rw [htables]; exact h.wf, by rw [htables]; exact h.frames,
    by rw [htables]; exact h.clean, h.sound⟩

/-- A client that writes to its page makes no table. -/
theorem Paging.Foreign.write (hq : s.Foreign q) (ha : s.Foreign a) (index : Fin 512)
    (value : Word) : (s.write a index value).Foreign q :=
  ⟨hq.1, by rw [ha.tables_write]; exact hq.2.1, hq.2.2⟩

end Clients

end Batos
