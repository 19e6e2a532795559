import Mathlib.Data.Nat.Notation
import Mathlib.Logic.Function.Basic

/-!
# Words in byte memory

Memory maps 64-bit addresses to bytes.  A word is eight bytes from its address on, the
least significant one first; addresses wrap around.

A store is read back at its address (`load_store_self`) and leaves all words alone that
have no byte in common with it (`load_store_of_apart`).  Two words have no byte in common
when neither address is less than eight bytes behind the other (`Apart`).

Words that are pushed, or stored one after another, stand in memory in a row
(`holds_pushWords`, `holds_storeWords`).
-/

namespace Batos

/-- Memory in bytes. -/
abbrev Bytes := BitVec 64 → BitVec 8

namespace Bytes

variable {m : Bytes} {a b v : BitVec 64}

/-- The word at an address. -/
def load (m : Bytes) (a : BitVec 64) : BitVec 64 :=
  m (a + 7) ++ m (a + 6) ++ m (a + 5) ++ m (a + 4) ++ m (a + 3) ++ m (a + 2) ++ m (a + 1) ++ m a

/-- Memory with a word stored at an address. -/
def store (m : Bytes) (a v : BitVec 64) : Bytes := fun x =>
  if (x - a).toNat < 8 then v.extractLsb' (8 * (x - a).toNat) 8 else m x

/-- The words at the two addresses have no byte in common. -/
def Apart (a b : BitVec 64) : Prop := 8 ≤ (a - b).toNat ∧ 8 ≤ (b - a).toNat

theorem load_congr {m' : Bytes} (h : ∀ x, (x - a).toNat < 8 → m' x = m x) :
    m'.load a = m.load a := by
  have hbyte : ∀ i : BitVec 64, i.toNat < 8 → m' (a + i) = m (a + i) := by
    intro i hi
    apply h
    rw [BitVec.add_comm, BitVec.add_sub_cancel]
    exact hi
  have hfirst := h a (by rw [BitVec.sub_self]; decide)
  rw [load, load, hbyte 7 (by decide), hbyte 6 (by decide), hbyte 5 (by decide),
    hbyte 4 (by decide), hbyte 3 (by decide), hbyte 2 (by decide), hbyte 1 (by decide), hfirst]

theorem store_add (i : BitVec 64) (hi : i.toNat < 8) :
    m.store a v (a + i) = v.extractLsb' (8 * i.toNat) 8 := by
  have hdistance : a + i - a = i := by rw [BitVec.add_comm, BitVec.add_sub_cancel]
  rw [store, hdistance, if_pos hi]

@[simp]
theorem load_store_self : (m.store a v).load a = v := by
  have hfirst : m.store a v a = v.extractLsb' 0 8 := by
    rw [store, BitVec.sub_self]
    rfl
  rw [load, store_add 7 (by decide), store_add 6 (by decide), store_add 5 (by decide),
    store_add 4 (by decide), store_add 3 (by decide), store_add 2 (by decide),
    store_add 1 (by decide), hfirst]
  -- eight adjacent bytes of a word are the word
  repeat rw [BitVec.extractLsb'_append_extractLsb'_eq_extractLsb' (by rfl)]
  exact BitVec.extractLsb'_eq_self

theorem load_store_of_apart (h : Apart a b) : (m.store a v).load b = m.load b := by
  apply load_congr
  intro x hx
  obtain ⟨hab, hba⟩ := h
  apply if_neg
  bv_omega

/-- A byte outside of a word. -/
theorem load_update {x : BitVec 64} {byte : BitVec 8} (h : 8 ≤ (x - a).toNat) :
    Bytes.load (Function.update m x byte) a = m.load a := by
  apply load_congr
  intro y hy
  apply Function.update_of_ne
  rintro rfl
  omega

/-! ## Words in a row -/

/-- The words stand one after another, from the address on. -/
def Holds (m : Bytes) : BitVec 64 → List (BitVec 64) → Prop
  | _, [] => True
  | a, word :: words => m.load a = word ∧ m.Holds (a + 8) words

/-- The words are pushed, the last one first: the new stack pointer, and memory. -/
def pushWords (m : Bytes) (sp : BitVec 64) : List (BitVec 64) → BitVec 64 × Bytes
  | [] => (sp, m)
  | word :: words =>
      ((m.pushWords sp words).1 - 8,
        (m.pushWords sp words).2.store ((m.pushWords sp words).1 - 8) word)

/-- The words are stored one after another, from the address on. -/
def storeWords (m : Bytes) (a : BitVec 64) : List (BitVec 64) → Bytes
  | [] => m
  | word :: words => (m.store a word).storeWords (a + 8) words

variable {words : List (BitVec 64)}

theorem Holds.congr {m' : Bytes} (h : m.Holds a words)
    (hbytes : ∀ x, (x - a).toNat < 8 * words.length → m' x = m x) : m'.Holds a words := by
  induction words generalizing a with
  | nil => trivial
  | cons word words ih =>
      rw [List.length_cons] at hbytes
      refine ⟨(load_congr fun x hx => hbytes x (by omega)).trans h.1,
        ih h.2 fun x hx => hbytes x ?_⟩
      bv_omega

theorem holds_pushWords {sp : BitVec 64} (hlength : words.length ≤ 0x2000000000000000) :
    (m.pushWords sp words).2.Holds (m.pushWords sp words).1 words := by
  induction words with
  | nil => trivial
  | cons word words ih =>
      rw [List.length_cons] at hlength
      refine ⟨load_store_self, ?_⟩
      show Holds _ ((m.pushWords sp words).1 - 8 + 8) words
      rw [BitVec.sub_add_cancel]
      -- the word goes below those that are there
      refine (ih (by omega)).congr fun x hx => if_neg ?_
      bv_omega

/-- A store of words leaves the bytes alone that are not theirs. -/
theorem storeWords_outside {x : BitVec 64} (hx : 8 * words.length ≤ (x - a).toNat) :
    m.storeWords a words x = m x := by
  induction words generalizing m a with
  | nil => rfl
  | cons word words ih =>
      rw [List.length_cons] at hx
      refine (ih (by bv_omega)).trans (if_neg ?_)
      omega

theorem holds_storeWords (hlength : words.length ≤ 0x2000000000000000) :
    (m.storeWords a words).Holds a words := by
  induction words generalizing m a with
  | nil => trivial
  | cons word words ih =>
      rw [List.length_cons] at hlength
      -- the words that follow start eight bytes further on
      have hfirst : (m.storeWords a (word :: words)).load a = (m.store a word).load a := by
        apply load_congr
        intro x hx
        rw [storeWords]
        exact storeWords_outside (by bv_omega)
      exact ⟨hfirst.trans load_store_self, ih (by omega)⟩

end Bytes

end Batos
