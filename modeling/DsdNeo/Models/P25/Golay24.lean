import DsdNeo.Core.Code.Perfect

/-!
# The cyclic Golay code of P25

`Golay24.hpp`: words of 23 bits, the data in the low twelve and the checks above them, with a
parity bit over both. A correction turns the word until its syndrome is short enough to be the
error, and where no turn will do it flips one bit after the other and tries again.
-/

namespace DsdNeo.P25.Golay24

open Bits BitVec

/-- `POLY`. -/
def poly : BitVec 32 := 0xAE3

/-- One bit of the data tested and divided out. -/
def divideBit (cw : BitVec 32) : BitVec 32 := (if cw.getLsbD 0 then cw ^^^ poly else cw) >>> 1

/-- `golay`. -/
def golay (cw : BitVec 32) : BitVec 32 :=
  let c := cw &&& 0xfff
  (divideBit^[12] c <<< 12) ||| c

/-- `parity`. -/
def parity (cw : BitVec 32) : BitVec 32 :=
  let p := cw ^^^ (cw >>> 8) ^^^ (cw >>> 16)
  let p := p ^^^ (p >>> 4)
  let p := p ^^^ (p >>> 2)
  let p := p ^^^ (p >>> 1)
  p &&& 1

/-- `syndrome`. -/
def syndrome (cw : BitVec 32) : BitVec 32 := divideBit^[12] (cw &&& 0x7fffff) <<< 12

/-- One turn of `rotate_left`. -/
def turnLeft (cw : BitVec 32) : BitVec 32 :=
  if cw &&& 0x400000 ≠ 0 then (cw <<< 1) ||| 1 else cw <<< 1

/-- `rotate_left`. -/
def rotateLeft (cw : BitVec 32) (n : ℕ) : BitVec 32 := turnLeft^[n] cw &&& 0x7fffff

/-- One turn of `rotate_right`. -/
def turnRight (cw : BitVec 32) : BitVec 32 :=
  if cw &&& 1 ≠ 0 then (cw >>> 1) ||| 0x400000 else cw >>> 1

/-- `rotate_right`. -/
def rotateRight (cw : BitVec 32) (n : ℕ) : BitVec 32 := turnRight^[n] cw &&& 0x7fffff

/-- The turns of a word from the `i`th on: the word with the errors removed where the
syndrome is short enough, and the weight of the last syndrome. -/
def shortSyndrome (w : ℕ) : ℕ → ℕ → BitVec 32 → BitVec 32 → ℕ → Option (BitVec 32) × ℕ
  | 0, _, _, _, errs => (none, errs)
  | left + 1, i, cw, s, _ =>
    let errs := weight (s &&& 0x7fffff)
    if errs ≤ w then (some (rotateRight (cw ^^^ s) i), errs)
    else
      let cw := rotateLeft cw 1
      shortSyndrome w left (i + 1) cw (syndrome cw) errs

/-- What `correct` returns. -/
structure Corrected where
  cw : BitVec 32
  errs : ℕ
  errorsDetected : ℕ
  deriving DecidableEq

/-- The passes of `correct` from trial bit `j` on, none of them flipping a bit for minus one. -/
def correctFrom (cwsaver : BitVec 32) : ℕ → ℤ → BitVec 32 → BitVec 32 → ℕ → ℕ → Corrected
  | 0, _, _, _, errs, detected => ⟨cwsaver, errs, detected⟩
  | left + 1, j, cw, mask, errs, detected =>
    let mask := if j > 0 then mask + mask else mask
    let cw := if j ≠ -1 then cwsaver ^^^ mask else cw
    let w := if j ≠ -1 then 2 else 3
    let s := syndrome cw
    if s ≠ 0 then
      match shortSyndrome w 23 0 cw s errs with
      | (some fixed, errs) => ⟨fixed, errs, detected + 1⟩
      | (none, errs) => correctFrom cwsaver left (j + 1) cw mask errs (detected + 1)
    else ⟨cw, errs, detected⟩

/-- `correct`. -/
def correct (cw : BitVec 32) : Corrected := correctFrom cw 24 (-1) cw 1 0 0

/-- `encode`. -/
def encode (data : BitVec 32) : BitVec 32 :=
  let codeword := golay data
  if parity codeword ≠ 0 then codeword ^^^ 0x800000 else codeword

/-- What `decode` returns, with the codeword and the count it leaves. -/
structure Decoded where
  uncorrectable : ℤ
  cw : BitVec 32
  errs : ℕ
  deriving DecidableEq

/-- `decode`. -/
def decode (cw : BitVec 32) : Decoded :=
  let parityBit := cw &&& 0x800000
  let corrected := correct (cw &&& ~~~0x800000)
  let cw := corrected.cw ||| parityBit
  ⟨if parity cw ≠ 0 then 1 else 0, cw, corrected.errs⟩

theorem divideBit_linear : IsLinear divideBit := by
  have hsum : IsLinear fun cw : BitVec 32 =>
      (cw ^^^ if cw.getLsbD 0 = true then poly else 0) >>> 1 :=
    (isLinear_ushiftRight 1).comp (isLinear_id.xor (isLinear_select 0 poly))
  have heq : divideBit = fun cw => (cw ^^^ if cw.getLsbD 0 = true then poly else 0) >>> 1 := by
    ext1 cw
    rw [divideBit]
    cases cw.getLsbD 0 <;> simp
  rw [heq]
  exact hsum

theorem syndrome_linear : IsLinear syndrome :=
  (isLinear_shiftLeft 12).comp ((divideBit_linear.iterate 12).comp (isLinear_and 0x7fffff))

/-- A masked bit is tested. -/
theorem and_twoPow_eq_zero (cw : BitVec 32) {i : ℕ} (hi : i < 32) :
    cw &&& BitVec.twoPow 32 i = 0 ↔ cw.getLsbD i = false := by
  rw [and_twoPow]
  cases cw.getLsbD i with
  | false => simp
  | true =>
    simp only [if_true, Bool.true_eq_false, iff_false]
    intro hzero
    have hbit := congrArg (BitVec.getLsbD · i) hzero
    simp [hi] at hbit

theorem turnLeft_eq (cw : BitVec 32) :
    turnLeft cw = (cw <<< 1) ^^^ if cw.getLsbD 22 = true then 1 else 0 := by
  have hbit := and_twoPow_eq_zero cw (i := 22) (by decide)
  have hmask : BitVec.twoPow 32 22 = 0x400000 := by decide
  rw [hmask] at hbit
  rw [turnLeft]
  cases h : cw.getLsbD 22 with
  | false =>
    rw [if_neg (not_not.mpr (hbit.mpr h))]
    simp
  | true =>
    have hset : cw &&& 0x400000 ≠ 0 := fun hzero =>
      Bool.false_ne_true ((hbit.mp hzero).symm.trans h)
    rw [if_pos hset, if_pos rfl]
    ext i
    rcases i with _ | i <;> simp

theorem rotateLeft_linear : IsLinear fun cw => rotateLeft cw 1 := by
  have hsum : IsLinear fun cw : BitVec 32 =>
      ((cw <<< 1) ^^^ if cw.getLsbD 22 = true then 1 else 0) &&& 0x7fffff :=
    (isLinear_and 0x7fffff).comp ((isLinear_shiftLeft 1).xor (isLinear_select 22 1))
  intro a b
  have hab := hsum a b
  simp only [← turnLeft_eq] at hab
  exact hab

theorem rotateLeft_xor (a b : BitVec 32) :
    rotateLeft (a ^^^ b) 1 = rotateLeft a 1 ^^^ rotateLeft b 1 := rotateLeft_linear a b

/-- What a turn to the right makes of a word of 23 bits. -/
def turnedRight (cw : BitVec 32) : BitVec 32 :=
  (cw >>> 1) ^^^ if cw.getLsbD 0 = true then 0x400000 else 0

theorem turnedRight_linear : IsLinear turnedRight :=
  (isLinear_ushiftRight 1).xor (isLinear_select 0 0x400000)

theorem turnRight_eq {cw : BitVec 32} (h : Below 23 cw) : turnRight cw = turnedRight cw := by
  have hbit := and_twoPow_eq_zero cw (i := 0) (by decide)
  have hmask : BitVec.twoPow 32 0 = 1 := by decide
  have htop : cw.getLsbD 23 = false := by
    by_contra hset
    have := h 23 (mem_positions.mpr (Bool.eq_true_of_not_eq_false hset))
    omega
  rw [hmask] at hbit
  rw [turnRight, turnedRight]
  cases h0 : cw.getLsbD 0 with
  | false =>
    rw [if_neg (not_not.mpr (hbit.mpr h0))]
    simp
  | true =>
    have hset : cw &&& 1 ≠ 0 := fun hzero =>
      Bool.false_ne_true ((hbit.mp hzero).symm.trans h0)
    have htwo : (0x400000 : BitVec 32) = BitVec.twoPow 32 22 := by decide
    rw [if_pos hset, if_pos rfl]
    refine eq_of_getLsbD_eq fun i hi => ?_
    rw [htwo, getLsbD_or, getLsbD_xor, getLsbD_ushiftRight, getLsbD_twoPow]
    by_cases hi' : 22 = i
    · subst hi'
      rw [htop]
      rfl
    · simp [hi']

theorem parity_linear : IsLinear parity := by
  have hfold : ∀ k, IsLinear fun p : BitVec 32 => p ^^^ (p >>> k) := fun k =>
    isLinear_id.xor (isLinear_ushiftRight k)
  have hbytes : IsLinear fun cw : BitVec 32 => cw ^^^ (cw >>> 8) ^^^ (cw >>> 16) :=
    (hfold 8).xor (isLinear_ushiftRight 16)
  exact (isLinear_and 1).comp ((hfold 1).comp ((hfold 2).comp ((hfold 4).comp hbytes)))

variable {w c : BitVec 32}

theorem and_mask (h : Below 23 w) : w &&& 0x7fffff = w := by
  refine eq_of_toNat_eq ?_
  have hmask : (0x7fffff : BitVec 32).toNat = 2 ^ 23 - 1 := by decide
  rw [toNat_and, hmask, Nat.and_two_pow_sub_one_eq_mod, Nat.mod_eq_of_lt (below_iff_toNat_lt.mp h)]

theorem below_mask (w : BitVec 32) : Below 23 (w &&& 0x7fffff) := by
  have hmask : (0x7fffff : BitVec 32).toNat = 2 ^ 23 - 1 := by decide
  rw [below_iff_toNat_lt, toNat_and, hmask, Nat.and_two_pow_sub_one_eq_mod]
  exact Nat.mod_lt _ (by decide)

theorem syndrome_mask (w : BitVec 32) : syndrome (w &&& 0x7fffff) = syndrome w := by
  rw [syndrome, syndrome, and_mask (below_mask w)]

theorem syndrome_bits :
    (∀ i < 23, syndrome (1#32 <<< i) &&& 0x7fffff = syndrome (1#32 <<< i)) ∧
      (∀ i < 23, syndrome (rotateLeft (1#32 <<< i) 1) =
        syndrome (rotateLeft (syndrome (1#32 <<< i)) 1)) ∧
      (∀ i < 23, 12 ≤ i → syndrome (1#32 <<< i) = 1#32 <<< i) ∧
      (∀ i < 23, syndrome (1#32 <<< i) =
        ((syndrome (1#32 <<< i) >>> 12).setWidth 11).setWidth 32 <<< 12) ∧
      (∀ i < 23, syndrome (syndrome (1#32 <<< i)) = syndrome (1#32 <<< i)) ∧
      keepsBit ((List.range 12).map fun i => (syndrome (1#32 <<< i)).toNat) 6 0 false = true := by
  decide +kernel

theorem below_syndrome (w : BitVec 32) : Below 23 (syndrome w) := by
  have heq : syndrome w &&& 0x7fffff = syndrome w := by
    rw [← syndrome_mask w]
    exact ((isLinear_and 0x7fffff).comp syndrome_linear).eq_below syndrome_linear (k := 23)
      syndrome_bits.1 (below_mask w)
  rw [← heq]
  exact below_mask _

/-- A word turned left `i` times. -/
def turn (i : ℕ) (w : BitVec 32) : BitVec 32 := (fun w => rotateLeft w 1)^[i] w

theorem turn_succ (i : ℕ) (w : BitVec 32) : turn (i + 1) w = rotateLeft (turn i w) 1 :=
  Function.iterate_succ_apply' _ i w

theorem below_turn (h : Below 23 w) (i : ℕ) : Below 23 (turn i w) := by
  cases i with
  | zero => exact h
  | succ i =>
    rw [turn_succ]
    exact below_mask _

theorem turnRight_rotateLeft (h : Below 23 w) : turnRight (rotateLeft w 1) = w := by
  have hturned : Below 23 (rotateLeft w 1) := below_mask _
  rw [turnRight_eq hturned]
  refine (turnedRight_linear.comp rotateLeft_linear).eq_below isLinear_id (k := 23) ?_ h
  decide

theorem below_turnRight (h : Below 23 w) : Below 23 (turnRight w) := by
  have heq : turnedRight w &&& 0x7fffff = turnedRight w := by
    refine ((isLinear_and 0x7fffff).comp turnedRight_linear).eq_below turnedRight_linear (k := 23)
      ?_ h
    decide
  rw [turnRight_eq h, ← heq]
  exact below_mask _

/-- Turning back takes the turned part of a sum back. -/
theorem rotateRight_turn {y : BitVec 32} (hc : Below 23 c) (hy : Below 23 y) (i : ℕ) :
    rotateRight (turn i c ^^^ y) i = c ^^^ rotateRight y i := by
  have hback : turnRight^[i] (turn i c ^^^ y) = c ^^^ turnRight^[i] y := by
    induction i generalizing y with
    | zero => rfl
    | succ i ih =>
      have hturned := below_turn hc (i + 1)
      rw [Function.iterate_succ_apply, Function.iterate_succ_apply, turnRight_eq (hturned.xor hy),
        turnedRight_linear, ← turnRight_eq hturned, ← turnRight_eq hy, turn_succ,
        turnRight_rotateLeft (below_turn hc i)]
      exact ih (below_turnRight hy)
  rw [rotateRight, hback, xor_and, and_mask hc, rotateRight]

theorem rotateRight_zero (i : ℕ) : rotateRight 0 i = 0 := by
  have hfixed : turnRight 0 = 0 := by decide
  rw [rotateRight, Function.iterate_fixed hfixed]
  decide

theorem syndrome_rotateLeft (h : Below 23 w) :
    syndrome (rotateLeft w 1) = syndrome (rotateLeft (syndrome w) 1) :=
  (syndrome_linear.comp rotateLeft_linear).eq_below
    (syndrome_linear.comp (rotateLeft_linear.comp syndrome_linear)) (k := 23) syndrome_bits.2.1 h

/-- A code word: no more than 23 bits, and no remainder. -/
structure IsCodeword (c : BitVec 32) : Prop where
  below : Below 23 c
  divided : syndrome c = 0

theorem IsCodeword.syndrome_xor (h : IsCodeword c) (x : BitVec 32) :
    syndrome (c ^^^ x) = syndrome x := by
  rw [syndrome_linear, h.divided]
  exact BitVec.zero_xor

/-- The code is cyclic. -/
theorem IsCodeword.turn (h : IsCodeword c) (i : ℕ) : IsCodeword (turn i c) := by
  induction i with
  | zero => exact h
  | succ i ih =>
    refine ⟨below_turn h.below _, ?_⟩
    rw [turn_succ, syndrome_rotateLeft ih.below, ih.divided, rotateLeft_linear.map_zero]
    exact syndrome_linear.map_zero

theorem shortSyndrome_codeword (hc : IsCodeword c) (w left : ℕ) {i : ℕ} {x s : BitVec 32}
    (hx : Below 23 x) (hs : Below 23 s) (errs : ℕ) :
    shortSyndrome w left i (turn i c ^^^ x) s errs =
      ((shortSyndrome w left i x s errs).1.map (c ^^^ ·), (shortSyndrome w left i x s errs).2) := by
  induction left generalizing i x s errs with
  | zero => rfl
  | succ left ih =>
    rw [shortSyndrome, shortSyndrome]
    dsimp only
    by_cases hshort : weight (s &&& 0x7fffff) ≤ w
    · rw [if_pos hshort, if_pos hshort, xor_assoc, rotateRight_turn hc.below (hx.xor hs)]
      rfl
    · rw [if_neg hshort, if_neg hshort, rotateLeft_xor, ← turn_succ, (hc.turn (i + 1)).syndrome_xor]
      exact ih (below_mask _) (below_syndrome _) _

/-- The mask before the pass of trial bit `k`. -/
def maskBefore (k : ℕ) : BitVec 32 := 1#32 <<< (k - 1)

theorem maskBefore_step : ∀ k : ℕ, k < 23 →
    (if (k : ℤ) > 0 then maskBefore k + maskBefore k else maskBefore k) = 1#32 <<< k := by
  decide

theorem below_oneBit {k : ℕ} (hk : k < 23) : Below 23 (1#32 <<< k) := by
  intro i hi
  have hlt := below_width _ i hi
  rw [mem_positions, getLsbD_oneBit hlt, decide_eq_true_iff] at hi
  omega

theorem correctFrom_trial (saver cw : BitVec 32) {k : ℕ} (hk : k < 23) (errs detected : ℕ) :
    correctFrom saver (23 - k) k cw (maskBefore k) errs detected =
      if syndrome (saver ^^^ (1#32 <<< k)) ≠ 0 then
        match shortSyndrome 2 23 0 (saver ^^^ (1#32 <<< k))
          (syndrome (saver ^^^ (1#32 <<< k))) errs with
        | (some fixed, errs) => ⟨fixed, errs, detected + 1⟩
        | (none, errs) => correctFrom saver (23 - (k + 1)) (k + 1 : ℕ) (saver ^^^ (1#32 <<< k))
            (maskBefore (k + 1)) errs (detected + 1)
      else ⟨saver ^^^ (1#32 <<< k), errs, detected⟩ := by
  have hleft : 23 - k = (23 - (k + 1)) + 1 := by omega
  have hj : (k : ℤ) ≠ -1 := by omega
  have hmask : maskBefore (k + 1) = 1#32 <<< k := rfl
  rw [hleft, correctFrom, maskBefore_step k hk, if_pos hj, if_pos hj, hmask]
  rfl

theorem correct_first (cw : BitVec 32) :
    correct cw =
      if syndrome cw ≠ 0 then
        match shortSyndrome 3 23 0 cw (syndrome cw) 0 with
        | (some fixed, errs) => ⟨fixed, errs, 1⟩
        | (none, errs) => correctFrom cw 23 (0 : ℕ) cw (maskBefore 0) errs 1 else ⟨cw, 0, 0⟩ := by
  have hmask : ¬ (-1 : ℤ) > 0 := by decide
  have hflip : ¬ (-1 : ℤ) ≠ -1 := by decide
  have hone : maskBefore 0 = 1 := by decide
  have hnext : (-1 : ℤ) + 1 = (0 : ℕ) := by decide
  rw [correct, correctFrom, if_neg hmask, if_neg hflip, if_neg hflip, hone, hnext]

/-- A code word is carried through a correction. -/
def Corrected.onto (c : BitVec 32) (r : Corrected) : Corrected := { r with cw := c ^^^ r.cw }

theorem correctFrom_codeword (hc : IsCodeword c) {v : BitVec 32} (hv : Below 23 v)
    (cw cw' : BitVec 32) {k : ℕ} (hk : k ≤ 23) (errs detected : ℕ) :
    correctFrom (c ^^^ v) (23 - k) k cw (maskBefore k) errs detected =
      (correctFrom v (23 - k) k cw' (maskBefore k) errs detected).onto c := by
  induction hleft : 23 - k generalizing k cw cw' errs detected with
  | zero => rfl
  | succ left ih =>
    have hlt : k < 23 := by omega
    have hflipped := hv.xor (below_oneBit hlt)
    have hnext : 23 - (k + 1) = left := by omega
    rw [← hleft, correctFrom_trial _ cw hlt, correctFrom_trial _ cw' hlt, xor_assoc,
      hc.syndrome_xor]
    have hshort := shortSyndrome_codeword hc 2 23 (i := 0) hflipped
      (below_syndrome (v ^^^ (1#32 <<< k))) errs
    rw [turn, Function.iterate_zero, id] at hshort
    rw [hshort]
    by_cases hzero : syndrome (v ^^^ (1#32 <<< k)) ≠ 0
    · rw [if_pos hzero, if_pos hzero]
      obtain ⟨found, errs'⟩ := shortSyndrome 2 23 0 (v ^^^ (1#32 <<< k))
        (syndrome (v ^^^ (1#32 <<< k))) errs
      cases found with
      | some fixed => rfl
      | none =>
        rw [hnext]
        exact ih _ _ hlt errs' (detected + 1) hnext
    · rw [if_neg hzero, if_neg hzero]
      rfl

/-- What a correction does to a word does not depend on the code word under it. -/
theorem correct_codeword (hc : IsCodeword c) {v : BitVec 32} (hv : Below 23 v) :
    correct (c ^^^ v) = (correct v).onto c := by
  have hshort := shortSyndrome_codeword hc 3 23 (i := 0) hv (below_syndrome v) 0
  rw [turn, Function.iterate_zero, id] at hshort
  rw [correct_first, correct_first, hc.syndrome_xor, hshort]
  by_cases hzero : syndrome v ≠ 0
  · rw [if_pos hzero, if_pos hzero]
    obtain ⟨found, errs⟩ := shortSyndrome 3 23 0 v (syndrome v) 0
    cases found with
    | some fixed => rfl
    | none => exact correctFrom_codeword hc hv _ _ (Nat.zero_le 23) errs 1
  · rw [if_neg hzero, if_neg hzero]
    rfl

end DsdNeo.P25.Golay24
