import Mathlib.Data.List.Induction
import Mathlib.Data.Set.Insert
import Mathlib.Logic.Function.Basic
import Mathlib.Logic.Relation

/-!
# Levelled ownership forests

A forest of nodes stored by address.  Each registered node has a level and an
owner, and each registered node above level `0` has slots, some of which point to
a node one level below.  `Wf` says that the pointers form trees: a pointer leads
to a registered node one level down with the same owner, every node below the top
level is pointed to exactly once, and a node of the top level owns itself.

While a subtree is under construction its root is registered but not yet pointed
to.  The set `loose` records these nodes, so that the invariant holds between any
two elementary steps and not only between operations; `Wf` with an empty `loose`
is the invariant a client sees.

The elementary steps are `insertNode`, `link`, `unlink` and `removeNode`, with
one preservation lemma each.  Two consequences of the tree shape are drawn at the
end: a part of a forest that is a forest itself is closed under parents
(`info_eq_none_of_desc`, `info_of_levels`), and a path is determined by where it
ends (`descend_injective`).
-/

/-- Nodes with a level and an owner, and slots that point to other nodes. -/
structure Forest (N I : Type*) where
  /-- The level and the owner of a registered node. -/
  info : N → Option (ℕ × N)
  /-- The node a slot points to. -/
  edge : N → I → Option N

namespace Forest

open Function Option

variable {l : ℕ}

variable {N I : Type*}

/-- The pointers form trees, up to the roots in `loose`. -/
structure Wf (F : Forest N I) (top : ℕ) (loose : Set N) : Prop where
  level_le : ∀ {p l o}, F.info p = some (l, o) → l ≤ top
  root_self : ∀ {p o}, F.info p = some (top, o) → o = p
  edge_info : ∀ {p i c}, F.edge p i = some c →
    ∃ l o, F.info p = some (l + 1, o) ∧ F.info c = some (l, o)
  parent : ∀ {c l o}, F.info c = some (l, o) → l < top → c ∉ loose →
    ∃ p i, F.edge p i = some c
  unique : ∀ {p i p' i' c}, F.edge p i = some c → F.edge p' i' = some c → p = p' ∧ i = i'
  loose_free : ∀ {c p i}, c ∈ loose → F.edge p i ≠ some c
  loose_registered : ∀ {c}, c ∈ loose → F.info c ≠ none

section Steps

variable [DecidableEq N] [DecidableEq I]

/-- Register a node without pointers. -/
def insertNode (F : Forest N I) (c : N) (level : ℕ) (owner : N) : Forest N I where
  info := update F.info c (some (level, owner))
  edge := update F.edge c fun _ => none

/-- Set one slot. -/
def setEdge (F : Forest N I) (p : N) (i : I) (target : Option N) : Forest N I where
  info := F.info
  edge := update F.edge p (update (F.edge p) i target)

/-- Forget a node and its slots. -/
def removeNode (F : Forest N I) (c : N) : Forest N I where
  info := update F.info c none
  edge := update F.edge c fun _ => none

omit [DecidableEq I] in
theorem insertNode_info_self {F : Forest N I} {c : N} {o : N} :
    (F.insertNode c l o).info c = some (l, o) :=
  update_self _ _ _

omit [DecidableEq I] in
theorem insertNode_info_of_ne {F : Forest N I} {c p : N} {o : N} (hne : p ≠ c) :
    (F.insertNode c l o).info p = F.info p :=
  update_of_ne hne _ _

omit [DecidableEq I] in
theorem insertNode_edge {F : Forest N I} {c p q : N} {o : N} {i : I} :
    (F.insertNode c l o).edge p i = some q ↔ p ≠ c ∧ F.edge p i = some q := by
  by_cases hp : p = c
  · subst hp
    simp [insertNode]
  · simp [insertNode, hp]

theorem setEdge_edge {F : Forest N I} {p q c : N} {i j : I} {target : Option N} :
    (F.setEdge p i target).edge q j = some c ↔
      (q = p ∧ j = i ∧ target = some c) ∨ (¬ (q = p ∧ j = i) ∧ F.edge q j = some c) := by
  by_cases hq : q = p
  · subst hq
    by_cases hj : j = i
    · subst hj
      simp [setEdge]
    · simp [setEdge, hj]
  · simp [setEdge, hq]

omit [DecidableEq I] in
theorem removeNode_info_self {F : Forest N I} {c : N} : (F.removeNode c).info c = none :=
  update_self _ _ _

omit [DecidableEq I] in
theorem removeNode_info_of_ne {F : Forest N I} {c p : N} (hne : p ≠ c) :
    (F.removeNode c).info p = F.info p :=
  update_of_ne hne _ _

omit [DecidableEq I] in
theorem removeNode_edge {F : Forest N I} {c p q : N} {i : I} :
    (F.removeNode c).edge p i = some q ↔ p ≠ c ∧ F.edge p i = some q := by
  by_cases hp : p = c
  · subst hp
    simp [removeNode]
  · simp [removeNode, hp]

variable {F : Forest N I} {top : ℕ} {loose : Set N}

omit [DecidableEq N] [DecidableEq I] in
/-- Nothing points to an unregistered node. -/
theorem Wf.edge_ne_of_info_none (h : F.Wf top loose) {c : N} (hc : F.info c = none) (p : N)
    (i : I) : F.edge p i ≠ some c := by
  intro hedge
  obtain ⟨l, o, -, hinfo⟩ := h.edge_info hedge
  rw [hc] at hinfo
  cases hinfo

omit [DecidableEq N] [DecidableEq I] in
/-- Nothing points to a node of the top level. -/
theorem Wf.edge_ne_of_top (h : F.Wf top loose) {c o : N} (hc : F.info c = some (top, o)) (p : N)
    (i : I) : F.edge p i ≠ some c := by
  intro hedge
  obtain ⟨l, o', hp, hinfo⟩ := h.edge_info hedge
  rw [hc] at hinfo
  obtain ⟨rfl, rfl⟩ := Prod.mk.inj (some.inj hinfo)
  exact absurd (h.level_le hp) (by omega)

omit [DecidableEq I] in
/-- A new node is registered loose. -/
theorem Wf.insertNode (h : F.Wf top loose) {c o : N} (hnew : F.info c = none) (hle : l ≤ top)
    (hself : l = top → o = c) :
    (F.insertNode c l o).Wf top (insert c loose) where
  level_le := by
    intro p l' o' hinfo
    by_cases hp : p = c
    · subst hp
      rw [insertNode_info_self] at hinfo
      obtain ⟨rfl, rfl⟩ := Prod.mk.inj (some.inj hinfo)
      exact hle
    · rw [insertNode_info_of_ne hp] at hinfo
      exact h.level_le hinfo
  root_self := by
    intro p o' hinfo
    by_cases hp : p = c
    · subst hp
      rw [insertNode_info_self] at hinfo
      obtain ⟨rfl, rfl⟩ := Prod.mk.inj (some.inj hinfo)
      exact hself rfl
    · rw [insertNode_info_of_ne hp] at hinfo
      exact h.root_self hinfo
  edge_info := by
    intro p i q hedge
    obtain ⟨hp, hedge⟩ := insertNode_edge.mp hedge
    obtain ⟨l', o', hpi, hqi⟩ := h.edge_info hedge
    have hq : q ≠ c := by
      rintro rfl
      rw [hnew] at hqi
      cases hqi
    exact ⟨l', o', by rwa [insertNode_info_of_ne hp], by rwa [insertNode_info_of_ne hq]⟩
  parent := by
    intro q l' o' hinfo hlt hloose
    rw [Set.mem_insert_iff, not_or] at hloose
    rw [insertNode_info_of_ne hloose.1] at hinfo
    obtain ⟨p, i, hedge⟩ := h.parent hinfo hlt hloose.2
    refine ⟨p, i, insertNode_edge.mpr ⟨?_, hedge⟩⟩
    rintro rfl
    obtain ⟨_, _, hp, -⟩ := h.edge_info hedge
    rw [hnew] at hp
    cases hp
  unique := by
    intro p i p' i' q h₁ h₂
    exact h.unique (insertNode_edge.mp h₁).2 (insertNode_edge.mp h₂).2
  loose_free := by
    intro q p i hq hedge
    have hold := (insertNode_edge.mp hedge).2
    rcases Set.mem_insert_iff.mp hq with rfl | hq
    · exact h.edge_ne_of_info_none hnew p i hold
    · exact h.loose_free hq hold
  loose_registered := by
    intro q hq
    by_cases hqc : q = c
    · subst hqc
      rw [insertNode_info_self]
      exact some_ne_none _
    · rw [insertNode_info_of_ne hqc]
      exact h.loose_registered ((Set.mem_insert_iff.mp hq).resolve_left hqc)

omit [DecidableEq N] [DecidableEq I] in
/-- A node of the top level need not be recorded as loose. -/
theorem Wf.of_insert_top {c o : N} (h : F.Wf top (insert c loose))
    (hc : F.info c = some (top, o)) : F.Wf top loose where
  level_le := h.level_le
  root_self := h.root_self
  edge_info := h.edge_info
  parent := by
    intro q l o' hinfo hlt hloose
    refine h.parent hinfo hlt ?_
    rw [Set.mem_insert_iff, not_or]
    refine ⟨?_, hloose⟩
    rintro rfl
    rw [hc] at hinfo
    obtain ⟨rfl, -⟩ := Prod.mk.inj (some.inj hinfo)
    exact lt_irrefl _ hlt
  unique := h.unique
  loose_free := fun hq => h.loose_free (Set.mem_insert_of_mem _ hq)
  loose_registered := fun hq => h.loose_registered (Set.mem_insert_of_mem _ hq)

omit [DecidableEq N] [DecidableEq I] in
/-- Conversely, a node of the top level may be recorded as loose. -/
theorem Wf.insert_top {c o : N} (h : F.Wf top loose) (hc : F.info c = some (top, o)) :
    F.Wf top (insert c loose) where
  level_le := h.level_le
  root_self := h.root_self
  edge_info := h.edge_info
  parent := fun hinfo hlt hloose =>
    h.parent hinfo hlt fun hmem => hloose (Set.mem_insert_of_mem _ hmem)
  unique := h.unique
  loose_free := by
    intro q p i hq hedge
    rcases Set.mem_insert_iff.mp hq with rfl | hq
    · exact h.edge_ne_of_top hc p i hedge
    · exact h.loose_free hq hedge
  loose_registered := by
    intro q hq
    rcases Set.mem_insert_iff.mp hq with rfl | hq
    · rw [hc]
      exact some_ne_none _
    · exact h.loose_registered hq

/-- Pointing an empty slot to a loose node of the right level and owner. -/
theorem Wf.link {p c o : N} {i : I} (h : F.Wf top (insert c loose)) (hc : c ∉ loose)
    (hempty : F.edge p i = none) (hp : F.info p = some (l + 1, o))
    (hinfo : F.info c = some (l, o)) :
    (F.setEdge p i (some c)).Wf top loose where
  level_le := h.level_le
  root_self := h.root_self
  edge_info := by
    intro q j d hedge
    rcases setEdge_edge.mp hedge with ⟨rfl, rfl, htarget⟩ | ⟨-, hold⟩
    · obtain rfl := some.inj htarget
      exact ⟨l, o, hp, hinfo⟩
    · exact h.edge_info hold
  parent := by
    intro d l' o' hd hlt hloose
    by_cases hdc : d = c
    · subst hdc
      exact ⟨p, i, setEdge_edge.mpr (.inl ⟨rfl, rfl, rfl⟩)⟩
    · obtain ⟨q, j, hedge⟩ := h.parent hd hlt (by
        rw [Set.mem_insert_iff, not_or]
        exact ⟨hdc, hloose⟩)
      refine ⟨q, j, setEdge_edge.mpr (.inr ⟨?_, hedge⟩)⟩
      rintro ⟨rfl, rfl⟩
      rw [hempty] at hedge
      cases hedge
  unique := by
    intro q j q' j' d h₁ h₂
    rcases setEdge_edge.mp h₁ with ⟨rfl, rfl, ht₁⟩ | ⟨-, hold₁⟩
    · obtain rfl := some.inj ht₁
      rcases setEdge_edge.mp h₂ with ⟨rfl, rfl, -⟩ | ⟨-, hold₂⟩
      · exact ⟨rfl, rfl⟩
      · exact absurd hold₂ (h.loose_free (Set.mem_insert _ _))
    · rcases setEdge_edge.mp h₂ with ⟨rfl, rfl, ht₂⟩ | ⟨-, hold₂⟩
      · obtain rfl := some.inj ht₂
        exact absurd hold₁ (h.loose_free (Set.mem_insert _ _))
      · exact h.unique hold₁ hold₂
  loose_free := by
    intro d q j hd hedge
    rcases setEdge_edge.mp hedge with ⟨rfl, rfl, htarget⟩ | ⟨-, hold⟩
    · obtain rfl := some.inj htarget
      exact hc hd
    · exact h.loose_free (Set.mem_insert_of_mem _ hd) hold
  loose_registered := fun hd => h.loose_registered (Set.mem_insert_of_mem _ hd)

/-- Clearing a slot leaves the node it pointed to loose. -/
theorem Wf.unlink {p c : N} {i : I} (h : F.Wf top loose) (hedge : F.edge p i = some c) :
    (F.setEdge p i none).Wf top (insert c loose) where
  level_le := h.level_le
  root_self := h.root_self
  edge_info := by
    intro q j d hnew
    rcases setEdge_edge.mp hnew with ⟨-, -, htarget⟩ | ⟨-, hold⟩
    · cases htarget
    · exact h.edge_info hold
  parent := by
    intro d l o hd hlt hloose
    rw [Set.mem_insert_iff, not_or] at hloose
    obtain ⟨q, j, hold⟩ := h.parent hd hlt hloose.2
    refine ⟨q, j, setEdge_edge.mpr (.inr ⟨?_, hold⟩)⟩
    rintro ⟨rfl, rfl⟩
    rw [hedge] at hold
    exact hloose.1 (some.inj hold).symm
  unique := by
    intro q j q' j' d h₁ h₂
    rcases setEdge_edge.mp h₁ with ⟨-, -, ht⟩ | ⟨-, hold₁⟩
    · cases ht
    · rcases setEdge_edge.mp h₂ with ⟨-, -, ht⟩ | ⟨-, hold₂⟩
      · cases ht
      · exact h.unique hold₁ hold₂
  loose_free := by
    intro d q j hd hnew
    rcases setEdge_edge.mp hnew with ⟨-, -, ht⟩ | ⟨hne, hold⟩
    · cases ht
    · rcases Set.mem_insert_iff.mp hd with rfl | hd
      · exact hne (h.unique hold hedge)
      · exact h.loose_free hd hold
  loose_registered := by
    intro d hd
    rcases Set.mem_insert_iff.mp hd with rfl | hd
    · obtain ⟨l, o, -, hinfo⟩ := h.edge_info hedge
      change F.info d ≠ none
      rw [hinfo]
      exact some_ne_none _
    · exact h.loose_registered hd

omit [DecidableEq I] in
/-- A loose node without pointers may be forgotten. -/
theorem Wf.removeNode {c : N} (h : F.Wf top (insert c loose)) (hc : c ∉ loose)
    (hleaf : ∀ i, F.edge c i = none) : (F.removeNode c).Wf top loose where
  level_le := by
    intro p l o hinfo
    by_cases hp : p = c
    · subst hp
      rw [removeNode_info_self] at hinfo
      cases hinfo
    · rw [removeNode_info_of_ne hp] at hinfo
      exact h.level_le hinfo
  root_self := by
    intro p o hinfo
    by_cases hp : p = c
    · subst hp
      rw [removeNode_info_self] at hinfo
      cases hinfo
    · rw [removeNode_info_of_ne hp] at hinfo
      exact h.root_self hinfo
  edge_info := by
    intro p i q hedge
    obtain ⟨hp, hold⟩ := removeNode_edge.mp hedge
    have hq : q ≠ c := by
      rintro rfl
      exact h.loose_free (Set.mem_insert _ _) hold
    obtain ⟨l, o, hpi, hqi⟩ := h.edge_info hold
    exact ⟨l, o, by rwa [removeNode_info_of_ne hp], by rwa [removeNode_info_of_ne hq]⟩
  parent := by
    intro q l o hinfo hlt hloose
    have hq : q ≠ c := by
      rintro rfl
      rw [removeNode_info_self] at hinfo
      cases hinfo
    rw [removeNode_info_of_ne hq] at hinfo
    obtain ⟨p, i, hedge⟩ := h.parent hinfo hlt (by
      rw [Set.mem_insert_iff, not_or]
      exact ⟨hq, hloose⟩)
    refine ⟨p, i, removeNode_edge.mpr ⟨?_, hedge⟩⟩
    rintro rfl
    rw [hleaf] at hedge
    cases hedge
  unique := by
    intro p i p' i' q h₁ h₂
    exact h.unique (removeNode_edge.mp h₁).2 (removeNode_edge.mp h₂).2
  loose_free := by
    intro q p i hq hedge
    exact h.loose_free (Set.mem_insert_of_mem _ hq) (removeNode_edge.mp hedge).2
  loose_registered := by
    intro q hq
    have hne : q ≠ c := fun heq => hc (heq ▸ hq)
    rw [removeNode_info_of_ne hne]
    exact h.loose_registered (Set.mem_insert_of_mem _ hq)

end Steps

/-! ## Subtrees -/

/-- `q` is `p` or lies below it. -/
def Desc (F : Forest N I) : N → N → Prop :=
  Relation.ReflTransGen fun a b => ∃ i, F.edge a i = some b

theorem Desc.refl (F : Forest N I) (p : N) : F.Desc p p := Relation.ReflTransGen.refl

theorem Desc.head {F : Forest N I} {p c q : N} {i : I} (hedge : F.edge p i = some c)
    (h : F.Desc c q) : F.Desc p q :=
  Relation.ReflTransGen.head ⟨i, hedge⟩ h

/-- Fewer pointers, fewer descendants. -/
theorem Desc.mono {F F' : Forest N I} (hsub : ∀ p i c, F'.edge p i = some c → F.edge p i = some c)
    {p q : N} (h : F'.Desc p q) : F.Desc p q :=
  Relation.ReflTransGen.mono (fun _ _ ⟨i, hedge⟩ => ⟨i, hsub _ _ _ hedge⟩) p q h

variable {F F' : Forest N I} {top : ℕ} {loose loose' : Set N}

/-- Descendants are registered, no higher than the root of the subtree and with its
owner. -/
theorem Wf.info_of_desc (h : F.Wf top loose) {p q o : N} (hp : F.info p = some (l, o))
    (hq : F.Desc p q) : ∃ l' ≤ l, F.info q = some (l', o) := by
  induction hq with
  | refl => exact ⟨l, le_rfl, hp⟩
  | tail _ hstep ih =>
      obtain ⟨i, hstep⟩ := hstep
      obtain ⟨l', hle, hinfo⟩ := ih
      obtain ⟨k, o', hpar, hchild⟩ := h.edge_info hstep
      rw [hinfo] at hpar
      obtain ⟨rfl, rfl⟩ := Prod.mk.inj (some.inj hpar)
      exact ⟨k, by omega, hchild⟩

/-- Without loose nodes every node hangs below its owner, which is of the top level. -/
theorem Wf.desc_owner (h : F.Wf top ∅) {q o : N} (hq : F.info q = some (l, o)) :
    F.info o = some (top, o) ∧ F.Desc o q := by
  have hclimb : ∀ n l q, F.info q = some (l, o) → l + n = top →
      F.info o = some (top, o) ∧ F.Desc o q := by
    intro n
    induction n with
    | zero =>
        intro l q hq hl
        obtain rfl : l = top := hl
        obtain rfl := h.root_self hq
        exact ⟨hq, .refl F _⟩
    | succ n ih =>
        intro l q hq hl
        obtain ⟨p, i, hedge⟩ := h.parent hq (by omega) (Set.notMem_empty q)
        obtain ⟨l', o', hp, hc⟩ := h.edge_info hedge
        rw [hq] at hc
        obtain ⟨rfl, rfl⟩ := Prod.mk.inj (some.inj hc)
        obtain ⟨ho, hdesc⟩ := ih (l + 1) p hp (by omega)
        exact ⟨ho, Relation.ReflTransGen.tail hdesc ⟨i, hedge⟩⟩
  have hle := h.level_le hq
  exact hclimb (top - l) l q hq (by omega)

/-- A loose node is below no other node. -/
theorem Wf.eq_of_desc_loose (h : F.Wf top loose) {p q : N} (hq : q ∈ loose) (hdesc : F.Desc p q) :
    q = p := by
  cases hdesc with
  | refl => rfl
  | tail _ hstep =>
      obtain ⟨i, hstep⟩ := hstep
      exact absurd hstep (h.loose_free hq)

/-- **A part of a forest that is a forest itself is closed under parents.**  If `F'`
is such a part of `F` and misses `p`, it misses everything below `p`: a survivor
would still need its one pointer, hence its parent, hence `p`. -/
theorem info_eq_none_of_desc {p : N} (hF : F.Wf top loose) (hF' : F'.Wf top loose')
    (hloose : loose' ⊆ loose) (hinfo : ∀ q x, F'.info q = some x → F.info q = some x)
    (hedge : ∀ q i c, F'.edge q i = some c → F.edge q i = some c) (hp : F'.info p = none)
    {q : N} (hq : F.Desc p q) : F'.info q = none := by
  induction hq with
  | refl => exact hp
  | @tail q' q _ hstep ih =>
      obtain ⟨i, hstep⟩ := hstep
      cases hsome : F'.info q with
      | none => rfl
      | some x =>
          obtain ⟨l, o, hpar, hchild⟩ := hF.edge_info hstep
          obtain rfl := some.inj ((hinfo q x hsome).symm.trans hchild)
          have hle := hF.level_le hpar
          have hnot : q ∉ loose' := fun hmem => hF.loose_free (hloose hmem) hstep
          obtain ⟨r, j, hrj⟩ := hF'.parent hsome (by omega) hnot
          obtain ⟨rfl, -⟩ := hF.unique (hedge r j q hrj) hstep
          obtain ⟨_, _, hr, -⟩ := hF'.edge_info hrj
          rw [ih] at hr
          cases hr

/-- **Every tree hangs from somewhere.**  If `F'` is a part of `F` with the same
loose nodes, and no node of level `l` or above is missing from it, then none is
missing below either. -/
theorem info_of_levels (hF : F.Wf top loose) (hF' : F'.Wf top loose)
    (hedge : ∀ q i, F'.info q ≠ none → F.edge q i = F'.edge q i) (hl : l ≤ top)
    (hhigh : ∀ q k o, F.info q = some (k, o) → F'.info q = none → k < l) {q : N}
    (hq : F.info q ≠ none) : F'.info q ≠ none := by
  -- climb from `q` to the level above, at most `l` times
  have hclimb : ∀ n k o q, F.info q = some (k, o) → k + n = l → F'.info q ≠ none := by
    intro n
    induction n with
    | zero =>
        intro k o q hinfo hk hmissing
        exact absurd (hhigh q k o hinfo hmissing) (by omega)
    | succ n ih =>
        intro k o q hinfo hk hmissing
        have hnot : q ∉ loose := fun hmem => hF'.loose_registered hmem hmissing
        obtain ⟨r, i, hri⟩ := hF.parent hinfo (by omega) hnot
        obtain ⟨k', o', hr, hchild⟩ := hF.edge_info hri
        rw [hinfo] at hchild
        obtain ⟨rfl, rfl⟩ := Prod.mk.inj (some.inj hchild)
        have hold := ih (k + 1) o r hr (by omega)
        rw [hedge r i hold] at hri
        obtain ⟨_, _, -, hqinfo⟩ := hF'.edge_info hri
        rw [hmissing] at hqinfo
        cases hqinfo
  obtain ⟨⟨k, o⟩, hinfo⟩ := Option.ne_none_iff_exists'.mp hq
  intro hmissing
  have hlt := hhigh q k o hinfo hmissing
  exact hclimb (l - k) k o q hinfo (by omega) hmissing

/-! ## Paths -/

/-- Follow a list of slots. -/
def descend (F : Forest N I) : List I → N → Option N
  | [], p => some p
  | i :: is, p => (F.edge p i).bind (F.descend is)

theorem descend_concat (F : Forest N I) (is : List I) (i : I) (p : N) :
    F.descend (is ++ [i]) p = (F.descend is p).bind fun q => F.edge q i := by
  induction is generalizing p with
  | nil =>
      change (F.edge p i).bind some = F.edge p i
      exact bind_fun_some _
  | cons j is ih =>
      change (F.edge p j).bind (F.descend (is ++ [i])) =
        ((F.edge p j).bind (F.descend is)).bind fun q => F.edge q i
      rw [bind_assoc]
      congr 1
      funext q
      exact ih q

/-- A path leads to a descendant. -/
theorem desc_of_descend {p q : N} {is : List I} (h : F.descend is p = some q) : F.Desc p q := by
  induction is generalizing p with
  | nil =>
      obtain rfl := some.inj h
      exact .refl F p
  | cons i is ih =>
      obtain ⟨c, hc, hq⟩ := bind_eq_some_iff.mp h
      exact .head hc (ih hq)

/-- Every descendant is reached by a path. -/
theorem exists_descend_of_desc {p q : N} (h : F.Desc p q) : ∃ is, F.descend is p = some q := by
  induction h with
  | refl => exact ⟨[], rfl⟩
  | tail _ hstep ih =>
      obtain ⟨i, hstep⟩ := hstep
      obtain ⟨is, his⟩ := ih
      refine ⟨is ++ [i], ?_⟩
      rw [descend_concat, his]
      exact hstep

/-- **A path is determined by where it ends.** -/
theorem descend_injective (h : F.Wf top loose) {p p' q : N} :
    ∀ {is is' : List I}, is.length = is'.length →
      F.descend is p = some q → F.descend is' p' = some q → p = p' ∧ is = is' := by
  intro is
  induction is using List.reverseRecOn generalizing q with
  | nil =>
      intro is' hlen h₁ h₂
      obtain rfl : is' = [] := List.length_eq_zero_iff.mp hlen.symm
      exact ⟨some.inj (h₁.trans h₂.symm), rfl⟩
  | append_singleton is i ih =>
      intro is' hlen h₁ h₂
      rcases List.eq_nil_or_concat is' with rfl | ⟨js, j, rfl⟩
      · simp at hlen
      · rw [List.concat_eq_append] at h₂ hlen ⊢
        rw [descend_concat, bind_eq_some_iff] at h₁ h₂
        obtain ⟨r, hr, hri⟩ := h₁
        obtain ⟨r', hr', hrj⟩ := h₂
        obtain ⟨rfl, rfl⟩ := h.unique hri hrj
        obtain ⟨hp, rfl⟩ := ih (by simpa using hlen) hr hr'
        exact ⟨hp, rfl⟩

end Forest
