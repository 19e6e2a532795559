import Mathlib.Data.List.Nodup
import Mathlib.Data.List.Basic

/-!
# Bounded slot registries

A registry is a list of slots, each holding a record that is either live or
dead.  A live record is found by its key; a new record takes the first dead slot
and, when there is none, a fresh slot at the end, up to a capacity.  Retiring a
record only marks its slot dead, so the list never shrinks and slots are reused.

Read as a partial function from keys to live records (`find`), a registry whose
live keys are distinct behaves as one expects, and that is all a client needs:
`find_claim_self`, `find_claim_of_ne`, `find_retire_self`, `find_retire_of_ne`
and `find_amend`, each with the matching fact about `liveKeys`.
-/

namespace SlotRegistry

open List Option

variable {α κ : Type*}

/-! ## Changing the first slot that satisfies a test -/

/-- Apply `f` to the first slot that satisfies `p`. -/
def modifyFirst (p : α → Bool) (f : α → α) : List α → List α
  | [] => []
  | a :: slots => if p a then f a :: slots else a :: modifyFirst p f slots

/-- Either no slot satisfies `p` and nothing happens, or the list splits at the
first one that does. -/
theorem modifyFirst_cases (p : α → Bool) (f : α → α) (slots : List α) :
    ((∀ a ∈ slots, p a = false) ∧ modifyFirst p f slots = slots) ∨
      ∃ pre a post, slots = pre ++ a :: post ∧ p a = true ∧ (∀ b ∈ pre, p b = false) ∧
        modifyFirst p f slots = pre ++ f a :: post := by
  induction slots with
  | nil => exact .inl ⟨fun a ha => absurd ha not_mem_nil, rfl⟩
  | cons a slots ih =>
      by_cases ha : p a = true
      · refine .inr ⟨[], a, slots, rfl, ha, fun b hb => absurd hb not_mem_nil, ?_⟩
        rw [modifyFirst, if_pos ha, nil_append]
      · have ha' : p a = false := by simpa using ha
        rw [modifyFirst, if_neg ha]
        rcases ih with ⟨hnone, heq⟩ | ⟨pre, b, post, hsplit, hb, hpre, heq⟩
        · refine .inl ⟨fun b hb => ?_, by rw [heq]⟩
          rcases mem_cons.mp hb with rfl | hb
          · exact ha'
          · exact hnone b hb
        · refine .inr ⟨a :: pre, b, post, by rw [hsplit, cons_append], hb,
            fun c hc => ?_, by rw [heq, cons_append]⟩
          rcases mem_cons.mp hc with rfl | hc
          · exact ha'
          · exact hpre c hc

theorem length_modifyFirst (p : α → Bool) (f : α → α) (slots : List α) :
    (modifyFirst p f slots).length = slots.length := by
  rcases modifyFirst_cases p f slots with ⟨-, heq⟩ | ⟨pre, a, post, hsplit, -, -, heq⟩
  · rw [heq]
  · rw [heq, hsplit]
    simp

/-! ## Live records -/

section Live

variable [DecidableEq κ] (live : α → Bool) (key : α → κ)

/-- The test for the live record of key `k`. -/
def matches_ (k : κ) (r : α) : Bool := live r && decide (key r = k)

/-- The first live record of key `k`. -/
def find (k : κ) (slots : List α) : Option α := slots.find? (matches_ live key k)

/-- The keys of the live records, in slot order. -/
def liveKeys (slots : List α) : List κ := (slots.filter live).map key

/-- Put a record into the first dead slot, or into a new slot below the capacity;
`f` fills the slot it is given. -/
def claim (capacity : ℕ) (blank : α) (f : α → α) (slots : List α) : Option (List α) :=
  if slots.any fun r => !live r then some (modifyFirst (fun r => !live r) f slots)
  else if capacity ≤ slots.length then none
  else some (slots ++ [f blank])

/-- Change the live record of key `k`. -/
def amend (k : κ) (f : α → α) (slots : List α) : List α :=
  modifyFirst (matches_ live key k) f slots

variable {live key}

theorem matches_iff {k : κ} {r : α} :
    matches_ live key k r = true ↔ live r = true ∧ key r = k := by
  simp [matches_]

/-- What is found is live and has the key. -/
theorem find_spec {k : κ} {slots : List α} {r : α} (h : find live key k slots = some r) :
    r ∈ slots ∧ live r = true ∧ key r = k :=
  ⟨List.mem_of_find?_eq_some h, matches_iff.mp (List.find?_some h)⟩

omit [DecidableEq κ] in
/-- The live keys are the keys of the live records. -/
theorem mem_liveKeys {k : κ} {slots : List α} :
    k ∈ liveKeys live key slots ↔ ∃ r ∈ slots, live r = true ∧ key r = k := by
  simp [liveKeys, and_assoc]

theorem find_eq_none_iff {k : κ} {slots : List α} :
    find live key k slots = none ↔ k ∉ liveKeys live key slots := by
  rw [find, List.find?_eq_none, mem_liveKeys]
  simp only [matches_iff, not_exists, not_and]

omit [DecidableEq κ] in
@[simp] theorem liveKeys_append (xs ys : List α) :
    liveKeys live key (xs ++ ys) = liveKeys live key xs ++ liveKeys live key ys := by
  simp [liveKeys]

omit [DecidableEq κ] in
theorem liveKeys_cons (a : α) (slots : List α) :
    liveKeys live key (a :: slots) =
      if live a then key a :: liveKeys live key slots else liveKeys live key slots := by
  unfold liveKeys
  by_cases ha : live a = true
  · rw [if_pos ha, filter_cons_of_pos ha, map_cons]
  · rw [if_neg ha, filter_cons_of_neg ha]

/-- The search goes through the slots in order. -/
theorem find_append_cons (k : κ) (pre post : List α) (a : α) :
    find live key k (pre ++ a :: post) =
      (find live key k pre).or
        (if matches_ live key k a then some a else find live key k post) := by
  rw [find, List.find?_append, List.find?_cons]
  cases matches_ live key k a <;> rfl

/-- With distinct live keys a live record is the one its key finds. -/
theorem find_of_mem {slots : List α} (hnodup : (liveKeys live key slots).Nodup) {r : α}
    (hmem : r ∈ slots) (hlive : live r = true) : find live key (key r) slots = some r := by
  induction slots with
  | nil => exact absurd hmem not_mem_nil
  | cons a slots ih =>
      rw [liveKeys_cons] at hnodup
      rcases mem_cons.mp hmem with rfl | hmem
      · exact List.find?_cons_of_pos (matches_iff.mpr ⟨hlive, rfl⟩)
      · have hkey : key r ∈ liveKeys live key slots := mem_liveKeys.mpr ⟨r, hmem, hlive, rfl⟩
        by_cases ha : live a = true
        · rw [if_pos ha, nodup_cons] at hnodup
          have hne : ¬ matches_ live key (key r) a = true := by
            rw [matches_iff]
            rintro ⟨-, heq⟩
            exact hnodup.1 (heq ▸ hkey)
          rw [find, List.find?_cons_of_neg hne]
          exact ih hnodup.2 hmem
        · rw [if_neg ha] at hnodup
          have hne : ¬ matches_ live key (key r) a = true := by
            rw [matches_iff]
            exact fun h => ha h.1
          rw [find, List.find?_cons_of_neg hne]
          exact ih hnodup hmem

/-- Changing the data of all records changes what is found, and no key. -/
theorem find_map {f : α → α} (hlive : ∀ a, live (f a) = live a) (hkey : ∀ a, key (f a) = key a)
    (k : κ) (slots : List α) :
    find live key k (slots.map f) = (find live key k slots).map f := by
  have hcomp : (matches_ live key k) ∘ f = matches_ live key k := by
    funext a
    simp [matches_, hlive, hkey]
  rw [find, List.find?_map, hcomp, find]

omit [DecidableEq κ] in
/-- A change of other fields leaves the live keys alone. -/
theorem liveKeys_map {f : α → α} (hlive : ∀ a, live (f a) = live a)
    (hkey : ∀ a, key (f a) = key a) (slots : List α) :
    liveKeys live key (slots.map f) = liveKeys live key slots := by
  have hcomp : live ∘ f = live := by
    funext a
    exact hlive a
  have hmap : key ∘ f = key := by
    funext a
    exact hkey a
  rw [liveKeys, List.filter_map, hcomp, List.map_map, hmap, liveKeys]

/-! ## Claiming a slot -/

section Claim

variable {capacity : ℕ} {blank : α} {f : α → α} {slots slots' : List α} {k : κ}

/-- The shape of a successful claim: one dead slot, old or new, was filled. -/
theorem claim_shape (h : claim live capacity blank f slots = some slots') :
    ∃ pre a post, slots' = pre ++ f a :: post ∧
      (slots = pre ++ a :: post ∧ live a = false ∨ slots = pre ∧ post = [] ∧ a = blank) := by
  unfold claim at h
  split_ifs at h with hdead hfull
  · obtain rfl := some.inj h
    rcases modifyFirst_cases (fun r => !live r) f slots with
      ⟨hnone, -⟩ | ⟨pre, a, post, hsplit, ha, -, heq⟩
    · rw [List.any_eq_true] at hdead
      obtain ⟨a, ha, hdead⟩ := hdead
      rw [hnone a ha] at hdead
      exact absurd hdead (by decide)
    · exact ⟨pre, a, post, heq, .inl ⟨hsplit, by simpa using ha⟩⟩
  · obtain rfl := some.inj h
    exact ⟨slots, blank, [], rfl, .inr ⟨rfl, rfl, rfl⟩⟩

variable (hlive : ∀ a, live (f a) = true) (hkey : ∀ a, key (f a) = k)

include hlive hkey

omit [DecidableEq κ] in
theorem liveKeys_claim_perm (h : claim live capacity blank f slots = some slots') :
    (liveKeys live key slots').Perm (k :: liveKeys live key slots) := by
  obtain ⟨pre, a, post, rfl, ⟨rfl, hdead⟩ | ⟨rfl, rfl, rfl⟩⟩ := claim_shape h
  · rw [liveKeys_append, liveKeys_append, liveKeys_cons, liveKeys_cons, if_pos (hlive a),
      hkey, hdead]
    exact perm_middle
  · rw [liveKeys_append, liveKeys_cons, if_pos (hlive a), hkey]
    exact perm_append_comm

omit [DecidableEq κ] in
/-- Claiming a slot for a fresh key keeps the keys distinct. -/
theorem nodup_claim (h : claim live capacity blank f slots = some slots')
    (hnodup : (liveKeys live key slots).Nodup) (hfresh : k ∉ liveKeys live key slots) :
    (liveKeys live key slots').Nodup :=
  (liveKeys_claim_perm hlive hkey h).nodup_iff.mpr (nodup_cons.mpr ⟨hfresh, hnodup⟩)

/-- The new record is found under its key. -/
theorem find_claim_self (h : claim live capacity blank f slots = some slots')
    (hnodup : (liveKeys live key slots).Nodup) (hfresh : k ∉ liveKeys live key slots) :
    ∃ a, find live key k slots' = some (f a) := by
  have hnodup' := nodup_claim hlive hkey h hnodup hfresh
  obtain ⟨pre, a, post, rfl, -⟩ := claim_shape h
  refine ⟨a, ?_⟩
  rw [← hkey a]
  exact find_of_mem hnodup' (by simp) (hlive a)

omit hlive in
/-- Other keys find what they found before. -/
theorem find_claim_of_ne (h : claim live capacity blank f slots = some slots') {k' : κ}
    (hne : k' ≠ k) : find live key k' slots' = find live key k' slots := by
  have hnew : ∀ a, matches_ live key k' (f a) = false := by
    intro a
    rw [Bool.eq_false_iff, ne_eq, matches_iff, hkey]
    exact fun hmatch => hne hmatch.2.symm
  obtain ⟨pre, a, post, rfl, ⟨rfl, hdead⟩ | ⟨rfl, rfl, rfl⟩⟩ := claim_shape h
  · have hold : matches_ live key k' a = false := by
      rw [matches_, hdead, Bool.false_and]
    rw [find_append_cons, find_append_cons, hnew, hold]
    rfl
  · rw [find_append_cons, hnew]
    simp [find]

end Claim

/-! ## Room for claims -/

section Spare

variable {capacity : ℕ} {blank : α} {f : α → α} {slots slots' : List α}

/-- How many claims the slots have room for: one for each dead slot, and one for each slot that
is not there yet. -/
def spare (live : α → Bool) (capacity : ℕ) (slots : List α) : ℕ :=
  (slots.filter fun r => !live r).length + (capacity - slots.length)

/-- A claim succeeds exactly if there is room. -/
theorem claim_isSome_iff :
    (claim live capacity blank f slots).isSome = true ↔ 0 < spare live capacity slots := by
  unfold claim spare
  by_cases hdead : (slots.any fun r => !live r) = true
  · obtain ⟨r, hr, hlive⟩ := List.any_eq_true.mp hdead
    have hmem : r ∈ slots.filter fun r => !live r := mem_filter.mpr ⟨hr, hlive⟩
    have hpos := length_pos_of_mem hmem
    rw [if_pos hdead]
    exact iff_of_true rfl (by omega)
  · have hnone : (slots.filter fun r => !live r) = [] := by
      rw [filter_eq_nil_iff]
      exact fun r hr hlive => hdead (List.any_eq_true.mpr ⟨r, hr, hlive⟩)
    rw [if_neg hdead, hnone, length_nil]
    by_cases hfull : capacity ≤ slots.length
    · rw [if_pos hfull]
      exact iff_of_false Bool.false_ne_true (by omega)
    · rw [if_neg hfull]
      exact iff_of_true rfl (by omega)

/-- A claim takes one of them. -/
theorem spare_claim (hlive : ∀ a, live (f a) = true)
    (h : claim live capacity blank f slots = some slots') :
    spare live capacity slots' + 1 = spare live capacity slots := by
  unfold claim at h
  unfold spare
  split_ifs at h with hdead hfull
  · obtain rfl := some.inj h
    rw [length_modifyFirst]
    rcases modifyFirst_cases (fun r => !live r) f slots with
      ⟨hnone, -⟩ | ⟨pre, a, post, hsplit, ha, -, heq⟩
    · obtain ⟨a, ha, hdead⟩ := List.any_eq_true.mp hdead
      rw [hnone a ha] at hdead
      exact absurd hdead (by decide)
    · rw [heq, hsplit, filter_append, filter_append, filter_cons, filter_cons,
        if_neg (by rw [hlive]; decide), if_pos ha]
      simp only [length_append, length_cons]
      omega
  · obtain rfl := some.inj h
    rw [filter_append, filter_cons, if_neg (by rw [hlive]; decide), filter_nil,
      append_nil, length_append, length_singleton]
    omega

end Spare

/-! ## Amending and retiring a record -/

section Amend

variable {f : α → α} {slots : List α} {k : κ}

variable (live key) in
theorem amend_shape (k : κ) (f : α → α) (slots : List α) :
    (find live key k slots = none ∧ amend live key k f slots = slots) ∨
      ∃ pre a post, slots = pre ++ a :: post ∧ live a = true ∧ key a = k ∧
        find live key k pre = none ∧ find live key k slots = some a ∧
        amend live key k f slots = pre ++ f a :: post := by
  rcases modifyFirst_cases (matches_ live key k) f slots with
    ⟨hnone, heq⟩ | ⟨pre, a, post, hsplit, ha, hpre, heq⟩
  · refine .inl ⟨?_, heq⟩
    rw [find, List.find?_eq_none]
    exact fun a ha => by simp [hnone a ha]
  · have hbefore : find live key k pre = none := by
      rw [find, List.find?_eq_none]
      exact fun b hb => by simp [hpre b hb]
    obtain ⟨hlive, hkey⟩ := matches_iff.mp ha
    refine .inr ⟨pre, a, post, hsplit, hlive, hkey, hbefore, ?_, heq⟩
    rw [hsplit, find_append_cons, hbefore, if_pos ha, none_or]

/-- An amendment that changes nothing. -/
theorem amend_eq_self (hf : ∀ a, find live key k slots = some a → f a = a) :
    amend live key k f slots = slots := by
  rcases amend_shape live key k f slots with
    ⟨-, heq⟩ | ⟨pre, a, post, hsplit, -, -, -, hfind, heq⟩
  · exact heq
  · rw [heq, hf a hfind, hsplit]

/-- Amending never disturbs another key. -/
theorem find_amend_of_ne (hf : ∀ a, live (f a) = true → key (f a) = key a) {k' : κ}
    (hne : k' ≠ k) :
    find live key k' (amend live key k f slots) = find live key k' slots := by
  rcases amend_shape live key k f slots with
    ⟨-, heq⟩ | ⟨pre, a, post, hsplit, hlive, hkey, -, -, heq⟩
  · rw [heq]
  · have hnew : matches_ live key k' (f a) = false := by
      rw [Bool.eq_false_iff, ne_eq, matches_iff]
      rintro ⟨hfa, hmatch⟩
      exact hne (hmatch.symm.trans ((hf a hfa).trans hkey))
    have hold : matches_ live key k' a = false := by
      rw [Bool.eq_false_iff, ne_eq, matches_iff, hkey]
      exact fun h => hne h.2.symm
    rw [heq, hsplit, find_append_cons, find_append_cons, hnew, hold]
    rfl

section Keep

variable (hlive : ∀ a, live (f a) = live a) (hkey : ∀ a, key (f a) = key a)

include hlive hkey

/-- Amending the data of a record changes no key. -/
theorem liveKeys_amend :
    liveKeys live key (amend live key k f slots) = liveKeys live key slots := by
  rcases amend_shape live key k f slots with
    ⟨-, heq⟩ | ⟨pre, a, post, hsplit, -, -, -, -, heq⟩
  · rw [heq]
  · rw [heq, hsplit, liveKeys_append, liveKeys_append, liveKeys_cons, liveKeys_cons, hlive,
      hkey]

/-- The record that is amended is the one that is found. -/
theorem find_amend_self :
    find live key k (amend live key k f slots) = (find live key k slots).map f := by
  rcases amend_shape live key k f slots with
    ⟨hnone, heq⟩ | ⟨pre, a, post, hsplit, ha, hak, hbefore, hfind, heq⟩
  · rw [heq, hnone, map_none]
  · have hnew : matches_ live key k (f a) = true := by
      rw [matches_iff, hlive, hkey]
      exact ⟨ha, hak⟩
    rw [heq, find_append_cons, hbefore, if_pos hnew, hfind, none_or, map_some]

end Keep

section Retire

variable (hdead : ∀ a, live (f a) = false)

include hdead

theorem liveKeys_retire_sublist :
    (liveKeys live key (amend live key k f slots)).Sublist (liveKeys live key slots) := by
  rcases amend_shape live key k f slots with
    ⟨-, heq⟩ | ⟨pre, a, post, hsplit, ha, -, -, -, heq⟩
  · rw [heq]
  · rw [heq, hsplit, liveKeys_append, liveKeys_append, liveKeys_cons, liveKeys_cons, hdead,
      if_pos ha]
    exact (List.Sublist.refl _).append (sublist_cons_self _ _)

/-- Once retired, a key finds nothing. -/
theorem find_retire_self (hnodup : (liveKeys live key slots).Nodup) :
    find live key k (amend live key k f slots) = none := by
  rcases amend_shape live key k f slots with
    ⟨hnone, heq⟩ | ⟨pre, a, post, hsplit, ha, hak, hbefore, -, heq⟩
  · rwa [heq]
  · have hnew : matches_ live key k (f a) = false := by
      rw [matches_, hdead, Bool.false_and]
    rw [heq, find_append_cons, hbefore, hnew, none_or]
    rw [hsplit, liveKeys_append, liveKeys_cons, if_pos ha, hak] at hnodup
    have hpost := (nodup_cons.mp (nodup_append.mp hnodup).2.1).1
    exact find_eq_none_iff.mpr hpost

/-- Retiring a record leaves those of other keys alone. -/
theorem find_retire_of_ne {k' : κ} (hne : k' ≠ k) :
    find live key k' (amend live key k f slots) = find live key k' slots :=
  find_amend_of_ne (fun a ha => absurd ha (by simp [hdead])) hne

/-- Retiring a record strikes it off the live records. -/
theorem filter_retire : (amend live key k f slots).filter live =
    (slots.filter live).eraseP (matches_ live key k) := by
  induction slots with
  | nil => rfl
  | cons a slots ih =>
      rw [amend, modifyFirst]
      by_cases hmatch : matches_ live key k a = true
      · rw [if_pos hmatch, filter_cons_of_neg (by simp [hdead]),
          filter_cons_of_pos (matches_iff.mp hmatch).1, eraseP_cons_of_pos hmatch]
      · rw [if_neg hmatch]
        by_cases ha : live a = true
        · rw [filter_cons_of_pos ha, filter_cons_of_pos ha, eraseP_cons_of_neg hmatch]
          exact congrArg _ ih
        · rw [filter_cons_of_neg ha, filter_cons_of_neg ha]
          exact ih

/-- Retiring the record that was claimed last leaves the live records that there were. -/
theorem filter_retire_claim {capacity : ℕ} {blank : α} {g : α → α} {slots' : List α}
    (hlive : ∀ a, live (g a) = true) (hkey : ∀ a, key (g a) = k)
    (h : claim live capacity blank g slots = some slots') (hfresh : k ∉ liveKeys live key slots) :
    (amend live key k f slots').filter live = slots.filter live := by
  have hbefore : ∀ {pre : List α}, (∀ r ∈ pre, r ∈ slots) →
      ∀ r ∈ pre.filter live, ¬ matches_ live key k r = true := by
    intro pre hpre r hr hmatch
    obtain ⟨hmem, -⟩ := mem_filter.mp hr
    exact hfresh (mem_liveKeys.mpr ⟨r, hpre r hmem, matches_iff.mp hmatch⟩)
  have hnew : ∀ a, matches_ live key k (g a) = true := fun a => matches_iff.mpr ⟨hlive a, hkey a⟩
  rw [filter_retire hdead]
  obtain ⟨pre, a, post, rfl, ⟨rfl, ha⟩ | ⟨rfl, rfl, rfl⟩⟩ := claim_shape h
  · rw [filter_append, filter_append, filter_cons_of_pos (hlive a),
      filter_cons_of_neg (by simp [ha]),
      eraseP_append_right _ (hbefore fun r hr => mem_append_left _ hr),
      eraseP_cons_of_pos (hnew a)]
  · rw [filter_append, filter_cons_of_pos (hlive a),
      eraseP_append_right _ (hbefore fun r hr => hr), eraseP_cons_of_pos (hnew a),
      filter_nil, append_nil]

end Retire

end Amend

/-! ## Slots -/

section Slots

variable {f : α → α} {slots : List α} {k : κ}

variable (live key) in
/-- The slot of the first live record of key `k`. -/
def slotOf (k : κ) (slots : List α) : Option ℕ := slots.findIdx? (matches_ live key k)

theorem slotOf_cons (a : α) (slots : List α) :
    slotOf live key k (a :: slots) =
      if matches_ live key k a then some 0 else (slotOf live key k slots).map (· + 1) :=
  List.findIdx?_cons

/-- The record of a key is in its slot. -/
theorem find_eq_slot : find live key k slots = (slotOf live key k slots).bind (slots[·]?) := by
  induction slots with
  | nil => rfl
  | cons a slots ih =>
      rw [slotOf_cons, find, List.find?_cons]
      cases matches_ live key k a with
      | true => rfl
      | false =>
          change find live key k slots = _
          rw [ih]
          cases slotOf live key k slots <;> rfl

/-- Amending changes one slot. -/
theorem getElem?_amend (i : ℕ) : (amend live key k f slots)[i]? =
    if slotOf live key k slots = some i then slots[i]?.map f else slots[i]? := by
  induction slots generalizing i with
  | nil => rfl
  | cons a slots ih =>
      rw [slotOf_cons, amend, modifyFirst]
      cases hmatch : matches_ live key k a with
      | true =>
          cases i with
          | zero => rfl
          | succ i => simp
      | false =>
          cases i with
          | zero => simp
          | succ i =>
              simp only [Bool.false_eq_true, if_false, List.getElem?_cons_succ]
              refine (ih i).trans ?_
              cases slotOf live key k slots <;> simp

/-- Amending changes nothing that does not read what it writes. -/
theorem map_amend {β : Type*} {g : α → β} (hg : ∀ a, g (f a) = g a) :
    (amend live key k f slots).map g = slots.map g := by
  rcases amend_shape live key k f slots with ⟨-, heq⟩ | ⟨pre, a, post, hsplit, -, -, -, -, heq⟩
  · rw [heq]
  · rw [heq, hsplit, map_append, map_append, map_cons, map_cons, hg]

/-- Amending moves no record of another key. -/
theorem slotOf_amend_of_ne (hkey : ∀ a, key (f a) = key a) {k' : κ} (hne : k' ≠ k) :
    slotOf live key k' (amend live key k f slots) = slotOf live key k' slots := by
  induction slots with
  | nil => rfl
  | cons a slots ih =>
      rw [amend, modifyFirst]
      cases hmatch : matches_ live key k a with
      | true =>
          have hold : matches_ live key k' a = false := by
            rw [Bool.eq_false_iff, ne_eq, matches_iff, (matches_iff.mp hmatch).2]
            exact fun h => hne h.2.symm
          have hnew : matches_ live key k' (f a) = false := by
            rw [Bool.eq_false_iff, ne_eq, matches_iff, hkey, (matches_iff.mp hmatch).2]
            exact fun h => hne h.2.symm
          rw [if_pos rfl, slotOf_cons, slotOf_cons, hold, hnew]
      | false =>
          simp only [Bool.false_eq_true, if_false]
          rw [slotOf_cons, slotOf_cons]
          exact congrArg (fun o => if matches_ live key k' a then
            some 0 else Option.map (· + 1) o) ih

/-- Changing the data of all records moves none. -/
theorem slotOf_map (hlive : ∀ a, live (f a) = live a) (hkey : ∀ a, key (f a) = key a) :
    slotOf live key k (slots.map f) = slotOf live key k slots := by
  have hcomp : (matches_ live key k) ∘ f = matches_ live key k := by
    funext a
    simp [matches_, hlive, hkey]
  rw [slotOf, List.findIdx?_map, hcomp, slotOf]

end Slots

end Live

end SlotRegistry
