import Mathlib.Data.Nat.Bitwise
import Mathlib.Data.List.Basic
import Mathlib.Tactic.IntervalCases

/-!
# Bytes as bits, most significant first

A byte string read one bit at a time from the top of each byte. The lemmas say
what a single-bit store into the bytes does to the bits, so that a loop that
fills a byte string bit by bit is a loop of list updates.
-/

namespace DsdNeo.Bytes

open List

/-- The eight bits of a byte, most significant first. -/
def byteBits (x : ℕ) : List Bool := (List.range 8).map fun k => x.testBit (7 - k)

@[simp] theorem length_byteBits (x : ℕ) : (byteBits x).length = 8 := by simp [byteBits]

/-- All bits of a byte string. -/
def bitsOf (bytes : List ℕ) : List Bool := bytes.flatMap byteBits

@[simp] theorem bitsOf_nil : bitsOf [] = [] := rfl

@[simp] theorem bitsOf_cons (x : ℕ) (bytes : List ℕ) :
    bitsOf (x :: bytes) = byteBits x ++ bitsOf bytes := rfl

@[simp] theorem length_bitsOf (bytes : List ℕ) : (bitsOf bytes).length = 8 * bytes.length := by
  induction bytes with
  | nil => rfl
  | cons x bytes ih => simp [ih]; omega

/-- Bit `i` of a row of bytes, the highest bit of a byte first. -/
theorem getElem?_bitsOf (bytes : List ℕ) (i : ℕ) :
    (bitsOf bytes)[i]? = bytes[i / 8]?.map fun x => x.testBit (7 - i % 8) := by
  induction bytes generalizing i with
  | nil => simp
  | cons x bytes ih =>
    rw [bitsOf_cons]
    by_cases hi : i < 8
    · have hdiv : i / 8 = 0 := by omega
      have hmod : i % 8 = i := by omega
      rw [getElem?_append_left (by simpa using hi), hdiv, hmod]
      simp [byteBits, hi]
    · obtain ⟨j, rfl⟩ : ∃ j, i = j + 8 := ⟨i - 8, by omega⟩
      have hdiv : (j + 8) / 8 = j / 8 + 1 := by omega
      have hmod : (j + 8) % 8 = j % 8 := by omega
      rw [getElem?_append_right (by simp), hdiv, hmod]
      simp [ih]

/-- The mask of bit `i` within its byte. -/
def bitMask (i : ℕ) : ℕ := 0x80 >>> (i % 8)

/-- A mask has its own bit alone. -/
theorem testBit_bitMask (i k : ℕ) (hk : k < 8) :
    (bitMask i).testBit (7 - k) = decide (k = i % 8) := by
  have hi : i % 8 < 8 := Nat.mod_lt _ (by decide)
  unfold bitMask
  generalize i % 8 = r at hi
  interval_cases r <;> interval_cases k <;> rfl

/-- Store one bit: set it with its mask, or clear it with the mask's complement. -/
def writeBit (bytes : List ℕ) (i : ℕ) (b : Bool) : List ℕ :=
  bytes.modify (i / 8) fun x => if b then x ||| bitMask i else x &&& (0xFF ^^^ bitMask i)

@[simp] theorem length_writeBit (bytes : List ℕ) (i : ℕ) (b : Bool) :
    (writeBit bytes i b).length = bytes.length := by simp [writeBit]

/-- The complement of a mask has all the other bits. -/
theorem testBit_compl_bitMask (i k : ℕ) (hk : k < 8) :
    (0xFF ^^^ bitMask i).testBit (7 - k) = !decide (k = i % 8) := by
  rw [Nat.testBit_xor, testBit_bitMask i k hk]
  have hff : Nat.testBit 0xFF (7 - k) = true := by interval_cases k <;> rfl
  rw [hff, Bool.true_xor]

/-- Writing one bit sets that bit. -/
theorem bitsOf_writeBit (bytes : List ℕ) (i : ℕ) (b : Bool) :
    bitsOf (writeBit bytes i b) = (bitsOf bytes).set i b := by
  apply ext_getElem?
  intro j
  have hj : j % 8 < 8 := Nat.mod_lt _ (by decide)
  rw [getElem?_bitsOf, writeBit, getElem?_modify, getElem?_set, getElem?_bitsOf, length_bitsOf]
  by_cases hbyte : i / 8 = j / 8
  · rw [hbyte]
    cases hx : bytes[j / 8]? with
    | none =>
      have hlen := List.getElem?_eq_none_iff.mp hx
      by_cases hij : i = j <;> simp [hij]
      omega
    | some x =>
      have hlen := (List.getElem?_eq_some_iff.mp hx).1
      by_cases hij : i = j
      · subst hij
        have hin : i < 8 * bytes.length := by omega
        cases b <;> simp [hin, testBit_bitMask _ _ hj, testBit_compl_bitMask _ _ hj]
      · have hmod : ¬ j % 8 = i % 8 := by omega
        cases b <;>
          simp [hij, hmod, testBit_bitMask _ _ hj, testBit_compl_bitMask _ _ hj]
  · have hij : i ≠ j := by
      rintro rfl
      exact hbyte rfl
    simp [hbyte, hij]

/-- Eight bits at a time, most significant first. -/
def pack : List Bool → List ℕ
  | b7 :: b6 :: b5 :: b4 :: b3 :: b2 :: b1 :: b0 :: bits =>
    (b7.toNat <<< 7 ||| b6.toNat <<< 6 ||| b5.toNat <<< 5 ||| b4.toNat <<< 4 |||
      b3.toNat <<< 3 ||| b2.toNat <<< 2 ||| b1.toNat <<< 1 ||| b0.toNat) :: pack bits
  | _ => []

set_option maxRecDepth 8000 in
private theorem pack_byteBits_nil : ∀ x, x < 256 → pack (byteBits x) = [x] := by decide

private theorem pack_append_eight {eight : List Bool} (h : eight.length = 8) (bits : List Bool) :
    pack (eight ++ bits) = pack eight ++ pack bits := by
  match eight, h with
  | [_, _, _, _, _, _, _, _], _ => rfl

/-- Unpacked bytes pack to the same bytes. -/
theorem pack_bitsOf {bytes : List ℕ} (h : ∀ x ∈ bytes, x < 256) : pack (bitsOf bytes) = bytes := by
  induction bytes with
  | nil => rfl
  | cons x bytes ih =>
    rw [bitsOf_cons, pack_append_eight (length_byteBits x),
      pack_byteBits_nil x (h x mem_cons_self), ih fun y hy => h y (mem_cons_of_mem x hy)]
    rfl

/-- Dropping bytes drops their bits. -/
theorem bitsOf_drop (bytes : List ℕ) (n : ℕ) :
    bitsOf (bytes.drop n) = (bitsOf bytes).drop (8 * n) := by
  induction n generalizing bytes with
  | zero => rfl
  | succ n ih =>
    obtain _ | ⟨x, bytes⟩ := bytes
    · simp
    · have hbyte : (byteBits x).drop 8 = [] := drop_eq_nil_of_le (by simp)
      rw [drop_succ_cons, ih, bitsOf_cons, Nat.mul_succ, Nat.add_comm, ← drop_drop,
        drop_append_of_le_length (by simp), hbyte, nil_append]

/-- Taking bytes takes their bits. -/
theorem bitsOf_take (bytes : List ℕ) (n : ℕ) :
    bitsOf (bytes.take n) = (bitsOf bytes).take (8 * n) := by
  induction n generalizing bytes with
  | zero => rfl
  | succ n ih =>
    obtain _ | ⟨x, bytes⟩ := bytes
    · simp
    · have hbyte : (byteBits x).take (8 * (n + 1)) = byteBits x :=
        take_of_length_le (by rw [length_byteBits]; omega)
      rw [take_succ_cons, bitsOf_cons, ih, bitsOf_cons, take_append, hbyte,
        length_byteBits, show 8 * (n + 1) - 8 = 8 * n by omega]

end DsdNeo.Bytes
