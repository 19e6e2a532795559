import Mathlib.Data.List.Basic
import Mathlib.Data.Nat.Notation

/-!
# Sequences of tagged records

A record in a byte stream: a tag, the length of the whole record in one byte, and a body.
Records follow each other without gaps, so that a reader finds the next one only through
the length of the one before.

`next` splits the first record off a stream, and it inverts `encode` (`next_eq_some_iff`).
`consume` feeds the records of a stream to a consumer one by one, until the consumer or the
stream is at fault; it gets through if and only if the stream is the encoding of a sequence of
records that the consumer accepts (`consume_eq_none_iff`).
-/

namespace Batos

open List

variable {bytes : List (BitVec 8)} {rounds : ℕ}

/-- A tag and a body. -/
structure TaggedRecord where
  tag : BitVec 8
  body : List (BitVec 8)
  deriving DecidableEq, Repr

namespace TaggedRecord

/-- The length of the whole record, the tag and the length itself included. -/
def length (r : TaggedRecord) : ℕ := r.body.length + 2

/-- The bytes of a record. -/
def encode (r : TaggedRecord) : List (BitVec 8) := r.tag :: BitVec.ofNat 8 r.length :: r.body

/-- The length fits in its byte. -/
def Short (r : TaggedRecord) : Prop := r.length < 256

instance (r : TaggedRecord) : Decidable r.Short := inferInstanceAs (Decidable (r.length < 256))

/-- The first record of a stream, and what comes behind it. -/
def next : List (BitVec 8) → Option (TaggedRecord × List (BitVec 8))
  | tag :: length :: rest =>
      if 2 ≤ length.toNat ∧ length.toNat ≤ rest.length + 2 then
        some (⟨tag, rest.take (length.toNat - 2)⟩, rest.drop (length.toNat - 2))
      else none
  | _ => none

variable {r : TaggedRecord} {bytes rest : List (BitVec 8)}

theorem Short.toNat_length (h : r.Short) : (BitVec.ofNat 8 r.length).toNat = r.length := by
  rw [BitVec.toNat_ofNat]
  exact Nat.mod_eq_of_lt h

theorem next_encode_append (h : r.Short) (rest : List (BitVec 8)) :
    next (r.encode ++ rest) = some (r, rest) := by
  have hlength := h.toNat_length
  simp only [encode, cons_append, next, hlength]
  have hbody : r.length - 2 = r.body.length := Nat.add_sub_cancel _ _
  rw [if_pos, hbody, take_left, drop_left]
  rw [length_append, length]
  omega

/-- **`next` inverts `encode`.** -/
theorem next_eq_some_iff : next bytes = some (r, rest) ↔ r.Short ∧ bytes = r.encode ++ rest := by
  constructor
  · intro heq
    match bytes, heq with
    | tag :: length :: rest', heq =>
        rw [next] at heq
        split_ifs at heq with hlength
        obtain ⟨rfl, rfl⟩ := Prod.mk.inj (Option.some.inj heq)
        have hlt := length.isLt
        have hbody : TaggedRecord.length ⟨tag, rest'.take (length.toNat - 2)⟩ = length.toNat := by
          rw [TaggedRecord.length, length_take]
          omega
        refine ⟨?_, ?_⟩
        · rw [Short, hbody]
          exact hlt
        · rw [encode, hbody, BitVec.ofNat_toNat, BitVec.setWidth_eq, cons_append, cons_append,
            take_append_drop]
  · rintro ⟨hshort, rfl⟩
    exact next_encode_append hshort rest

section Consume

variable {σ ε : Type*} (accept : σ → TaggedRecord → Except ε σ) (reject : List (BitVec 8) → ε)

/-- Feed the records of a stream to a consumer.  The fault, if there is one, and the state of the
consumer in front of it. -/
def consume : ℕ → List (BitVec 8) → σ → Option ε × σ
  | _, [], s => (none, s)
  | 0, byte :: bytes, s => (some (reject (byte :: bytes)), s)
  | rounds + 1, byte :: bytes, s =>
      match next (byte :: bytes) with
      | none => (some (reject (byte :: bytes)), s)
      | some (r, rest) =>
          match accept s r with
          | .error fault => (some fault, s)
          | .ok s' => consume rounds rest s'

theorem consume_nil (rounds : ℕ) (s : σ) : consume accept reject rounds [] s = (none, s) := by
  cases rounds <;> rfl

theorem consume_succ (hne : bytes ≠ []) (rounds : ℕ) (s : σ) :
    consume accept reject (rounds + 1) bytes s =
      match next bytes with
      | none => (some (reject bytes), s)
      | some (r, rest) =>
          match accept s r with
          | .error fault => (some fault, s)
          | .ok s' => consume accept reject rounds rest s' := by
  cases bytes with
  | nil => exact absurd rfl hne
  | cons byte bytes => rfl

/-- An empty stream. -/
theorem consume_nil_eq_none_iff {s s' : σ} :
    consume accept reject rounds [] s = (none, s') ↔
      ∃ records : List TaggedRecord, (∀ r ∈ records, r.Short) ∧ [] = records.flatMap encode ∧
        records.foldlM accept s = .ok s' := by
  rw [consume_nil]
  constructor
  · intro heq
    obtain rfl := congrArg Prod.snd heq
    exact ⟨[], nofun, rfl, rfl⟩
  · rintro ⟨records, -, hnil, hfold⟩
    cases records with
    | nil => exact congrArg _ (Except.ok.inj hfold)
    | cons r records => cases hnil

/-- **What `consume` gets through**: the encodings of the sequences of records the consumer
accepts. -/
theorem consume_eq_none_iff (hrounds : bytes.length ≤ rounds) {s s' : σ} :
    consume accept reject rounds bytes s = (none, s') ↔
      ∃ records : List TaggedRecord, (∀ r ∈ records, r.Short) ∧ bytes = records.flatMap encode ∧
        records.foldlM accept s = .ok s' := by
  induction rounds generalizing bytes s with
  | zero =>
      obtain rfl := length_eq_zero_iff.mp (Nat.le_zero.mp hrounds)
      exact consume_nil_eq_none_iff accept reject
  | succ rounds ih =>
      by_cases hne : bytes = []
      · rw [hne]
        exact consume_nil_eq_none_iff accept reject
      rw [consume_succ accept reject hne]
      constructor
      · intro heq
        cases hnext : next bytes with
        | none =>
            rw [hnext] at heq
            cases congrArg Prod.fst heq
        | some split =>
            obtain ⟨r, rest⟩ := split
            obtain ⟨hshort, rfl⟩ := next_eq_some_iff.mp hnext
            rw [hnext] at heq
            dsimp only at heq
            cases haccept : accept s r with
            | error fault =>
                rw [haccept] at heq
                cases congrArg Prod.fst heq
            | ok t =>
                rw [haccept] at heq
                have hrest : rest.length ≤ rounds := by
                  rw [length_append, encode, length_cons, length_cons] at hrounds
                  omega
                obtain ⟨records, hshorts, rfl, hfold⟩ := (ih hrest).mp heq
                refine ⟨r :: records, forall_mem_cons.mpr ⟨hshort, hshorts⟩, rfl, ?_⟩
                rw [foldlM_cons, haccept]
                exact hfold
      · rintro ⟨records, hshorts, rfl, hfold⟩
        cases records with
        | nil => exact absurd rfl hne
        | cons r records =>
            rw [forall_mem_cons] at hshorts
            rw [flatMap_cons] at hrounds ⊢
            rw [next_encode_append hshorts.1]
            dsimp only
            rw [foldlM_cons] at hfold
            cases haccept : accept s r with
            | error fault =>
                rw [haccept] at hfold
                cases hfold
            | ok t =>
                rw [haccept] at hfold
                have hrest : (records.flatMap encode).length ≤ rounds := by
                  rw [length_append, encode, length_cons, length_cons] at hrounds
                  omega
                exact (ih hrest).mpr ⟨records, hshorts.2, rfl, hfold⟩

/-- A fault is the stream's or the consumer's. -/
theorem consume_fault {s s' : σ} {fault : ε}
    (h : consume accept reject rounds bytes s = (some fault, s')) :
    (∃ rest, fault = reject rest) ∨ ∃ t r, accept t r = .error fault := by
  induction rounds generalizing bytes s with
  | zero =>
      cases bytes with
      | nil => cases congrArg Prod.fst h
      | cons byte bytes => exact .inl ⟨_, (Option.some.inj (congrArg Prod.fst h)).symm⟩
  | succ rounds ih =>
      by_cases hne : bytes = []
      · rw [hne, consume_nil] at h
        cases congrArg Prod.fst h
      rw [consume_succ accept reject hne] at h
      cases hnext : next bytes with
      | none =>
          rw [hnext] at h
          exact .inl ⟨_, (Option.some.inj (congrArg Prod.fst h)).symm⟩
      | some split =>
          rw [hnext] at h
          dsimp only at h
          cases haccept : accept s split.1 with
          | error code =>
              rw [haccept] at h
              exact .inr ⟨s, split.1,
                haccept.trans (congrArg _ (Option.some.inj (congrArg Prod.fst h)))⟩
          | ok t =>
              rw [haccept] at h
              exact ih h

end Consume

theorem two_mul_length_le (records : List TaggedRecord) :
    2 * records.length ≤ (records.flatMap encode).length := by
  induction records with
  | nil => exact Nat.le_refl 0
  | cons r records ih =>
      rw [flatMap_cons, length_append, encode, length_cons, length_cons, length_cons]
      omega

end TaggedRecord

end Batos
