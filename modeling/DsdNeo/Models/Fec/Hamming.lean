import DsdNeo.Core.Code.Perfect

/-!
# Hamming decoding by tables

The Hamming decoders of `fec.c` that leave their output alone on a failure. The
syndrome is an index into the table of places to flip, where a missing entry stands
for `0xFF`. One bit in error is always corrected, and a word that was corrected has
every check answered by zero.
-/

namespace DsdNeo.Fec.Hamming

open Matrix ParityCheck

/-- A parity check matrix `m_H`, written row after row, and the table `m_corr` as the
assignments that fill it. -/
structure Tables (n k r : ℕ) where
  mH : List ℕ
  mCorr : List (ℕ × ℕ)

namespace Tables

variable {n k r : ℕ}

/-- The matrix `m_H`. -/
def matrix (t : Tables n k r) : Matrix (Fin r) (Fin n) (ZMod 2) :=
  fun s j => (t.mH.getD (n * s + j) 0 : ℕ)

end Tables

/-- The tables of a code: every place has its column in the table of corrections, and
the table names no other places. -/
structure Code (n k r : ℕ) extends Tables n k r where
  dataFits : k ≤ n
  columns : ∀ p : Fin n, toTables.matrix.col p ≠ 0
  corrects : ∀ p : Fin n, mCorr.lookup (number (toTables.matrix.col p)) = some p.val
  corrected : ∀ e ∈ mCorr, ∃ p : Fin n, e = (number (toTables.matrix.col p), p.val)

/-- `Hamming_13_9_m_H` and `Hamming_13_9_m_corr`. -/
def hamming139 : Code 13 9 4 where
  mH := [1, 1, 0, 1, 0, 1, 1, 0, 0, 1, 0, 0, 0, 1, 1, 1, 0, 1, 0, 1, 1, 0, 0, 1, 0, 0,
    1, 1, 1, 1, 0, 1, 0, 1, 1, 0, 0, 1, 0, 1, 0, 1, 0, 1, 1, 0, 0, 1, 0, 0, 0, 1]
  mCorr := [(15, 0), (14, 1), (7, 2), (10, 3), (5, 4), (11, 5), (12, 6), (6, 7), (3, 8), (8, 9),
    (4, 10), (2, 11), (1, 12)]
  dataFits := by decide
  columns := by decide
  corrects := by decide
  corrected := by decide

/-- `Hamming_15_11_m_H` and `Hamming_15_11_m_corr`. -/
def hamming1511 : Code 15 11 4 where
  mH := [1, 1, 1, 1, 0, 1, 0, 1, 1, 0, 0, 1, 0, 0, 0, 0, 1, 1, 1, 1, 0, 1, 0, 1, 1, 0, 0, 1, 0, 0,
    0, 0, 1, 1, 1, 1, 0, 1, 0, 1, 1, 0, 0, 1, 0, 1, 1, 1, 0, 1, 0, 1, 1, 0, 0, 1, 0, 0, 0, 1]
  mCorr := [(9, 0), (13, 1), (15, 2), (14, 3), (7, 4), (10, 5), (5, 6), (11, 7), (12, 8), (6, 9),
    (3, 10), (8, 11), (4, 12), (2, 13), (1, 14)]
  dataFits := by decide
  columns := by decide
  corrects := by decide
  corrected := by decide

/-- `Hamming_16_11_4_m_H` and `Hamming_16_11_4_m_corr`. -/
def hamming16114 : Code 16 11 5 where
  mH := [1, 1, 1, 1, 0, 1, 0, 1, 1, 0, 0, 1, 0, 0, 0, 0, 0, 1, 1, 1,
    1, 0, 1, 0, 1, 1, 0, 0, 1, 0, 0, 0, 0, 0, 1, 1, 1, 1, 0, 1,
    0, 1, 1, 0, 0, 1, 0, 0, 1, 1, 1, 0, 1, 0, 1, 1, 0, 0, 1, 0,
    0, 0, 1, 0, 1, 0, 1, 0, 0, 1, 1, 0, 1, 1, 1, 0, 0, 0, 0, 1]
  mCorr := [(19, 0), (26, 1), (31, 2), (28, 3), (14, 4), (21, 5), (11, 6), (22, 7), (25, 8),
    (13, 9), (7, 10), (16, 11), (8, 12), (4, 13), (2, 14), (1, 15)]
  dataFits := by decide
  columns := by decide
  corrects := by decide
  corrected := by decide

variable {n k r : ℕ}

/-- The syndrome of the bits of a word, with the first check the highest bit. -/
def syndromeI (c : Code n k r) (rxBits : ℕ → UInt8) : ℕ :=
  ∑ s : Fin r, ((∑ j : Fin n, (rxBits j).toNat * c.mH.getD (n * s + j) 0) % 2) <<< (r - 1 - s.val)

/-- Flip one bit of a word. -/
def flipBit (rxBits : ℕ → UInt8) (p : ℕ) : ℕ → UInt8 :=
  Function.update rxBits p (rxBits p ^^^ 1)

/-- The word after its correction, or nothing where the table has no place for the syndrome. -/
def correct (c : Code n k r) (rxBits : ℕ → UInt8) : Option (ℕ → UInt8) :=
  if syndromeI c rxBits > 0 then (c.mCorr.lookup (syndromeI c rxBits)).map (flipBit rxBits)
  else some rxBits

/-- The information bits of a word. -/
def information (k : ℕ) (rxBits : ℕ → UInt8) : Fin k → UInt8 := fun j => rxBits j

/-- What a decoder returns, with the word and the output it leaves. -/
structure Decoded (k : ℕ) where
  correctable : Bool
  rxBits : ℕ → UInt8
  decodedBits : Fin k → UInt8

/-- A decoder over one codeword: the output is written unless the word cannot be corrected. -/
def decode (c : Code n k r) (rxBits : ℕ → UInt8) (decodedBits : Fin k → UInt8) : Decoded k :=
  match correct c rxBits with
  | some corrected => ⟨true, corrected, information k corrected⟩
  | none => ⟨false, rxBits, decodedBits⟩

/-- `Hamming_13_9_decode`. -/
def hamming139Decode := decode hamming139

/-- `Hamming_15_11_decode`. -/
def hamming1511Decode := decode hamming1511

/-- `Hamming_16_11_4_decode`. -/
def hamming16114Decode := decode hamming16114

theorem decode_correctable (c : Code n k r) (rxBits : ℕ → UInt8) (decodedBits : Fin k → UInt8) :
    (decode c rxBits decodedBits).correctable = (correct c rxBits).isSome := by
  rw [decode]
  cases correct c rxBits <;> rfl

theorem decode_decodedBits (c : Code n k r) (rxBits : ℕ → UInt8) (decodedBits : Fin k → UInt8) :
    (decode c rxBits decodedBits).decodedBits =
      ((correct c rxBits).map (information k)).getD decodedBits := by
  rw [decode]
  cases correct c rxBits <;> rfl

/-- The low bits of the entries of a word. -/
def bits (n : ℕ) (rxBits : ℕ → UInt8) : Fin n → ZMod 2 := fun j => (rxBits j).toNat

/-- The matrix of checks written row after row. -/
def checkMatrix (n r : ℕ) (mH : List ℕ) : Matrix (Fin r) (Fin n) (ZMod 2) :=
  fun s j => (mH.getD (n * s + j) 0 : ℕ)

/-- The answers a decoder sums up. -/
theorem sum_checks (mH : List ℕ) (rxBits : ℕ → UInt8) :
    ∑ s : Fin r, ((∑ j : Fin n, (rxBits j).toNat * mH.getD (n * s + j) 0) % 2) <<< (r - 1 - s.val) =
      number (checkMatrix n r mH *ᵥ bits n rxBits) := by
  rw [number]
  refine Finset.sum_congr rfl fun s _ => ?_
  congr 1
  have hcast : (checkMatrix n r mH *ᵥ bits n rxBits) s =
      ((∑ j : Fin n, (rxBits j).toNat * mH.getD (n * s + j) 0 : ℕ) : ZMod 2) := by
    rw [Nat.cast_sum, mulVec, dotProduct]
    refine Finset.sum_congr rfl fun j _ => ?_
    rw [Nat.cast_mul, mul_comm]
    rfl
  rw [hcast, ZMod.val_natCast]

theorem syndromeI_eq (c : Code n k r) (rxBits : ℕ → UInt8) :
    syndromeI c rxBits = number (c.matrix *ᵥ bits n rxBits) :=
  sum_checks c.mH rxBits

theorem bit_xor_one (x : UInt8) : ((x ^^^ 1).toNat : ZMod 2) = (x.toNat : ZMod 2) + 1 := by
  rw [← Nat.cast_succ, ZMod.natCast_eq_natCast_iff', UInt8.toNat_xor, Nat.xor_mod_two_eq]
  rfl

/-- A word that every check answers by zero. -/
def IsCodeword (c : Code n k r) (w : ℕ → UInt8) : Prop := c.matrix *ᵥ bits n w = 0

theorem isCodeword_iff (c : Code n k r) (w : ℕ → UInt8) : IsCodeword c w ↔ syndromeI c w = 0 := by
  rw [syndromeI_eq, number_eq_zero]
  rfl

variable {c : Code n k r} {w v : ℕ → UInt8}

theorem correct_of_isCodeword (h : IsCodeword c w) : correct c w = some w := by
  rw [correct, (isCodeword_iff c w).mp h]
  rfl

/-- Words whose bits agree have one syndrome. -/
theorem syndromeI_congr (c : Code n k r) (h : ∀ j, j < n → v j = w j) :
    syndromeI c v = syndromeI c w := by
  refine Finset.sum_congr rfl fun s _ => ?_
  congr 2
  refine Finset.sum_congr rfl fun j _ => ?_
  rw [h j j.isLt]

/-- Only the bits of the codeword matter to what is read from its correction. -/
theorem correct_congr (c : Code n k r) (h : ∀ j, j < n → v j = w j) :
    (correct c v).map (information k) = (correct c w).map (information k) := by
  have hflip : ∀ p, information k (flipBit v p) = information k (flipBit w p) := by
    intro p
    ext1 j
    have hj : j.val < n := j.isLt.trans_le c.dataFits
    by_cases hp : j.val = p
    · subst hp
      simp only [information, flipBit, Function.update_self, h _ hj]
    · simp only [information, flipBit, Function.update_of_ne hp, h _ hj]
  have hsame : information k v = information k w := by
    ext1 j
    exact h j (j.isLt.trans_le c.dataFits)
  rw [correct, correct, syndromeI_congr c h]
  split_ifs
  · cases c.mCorr.lookup (syndromeI c w) with
    | none => rfl
    | some p => exact congrArg some (hflip p)
  · exact congrArg some hsame

@[simp] theorem flipBit_self (w : ℕ → UInt8) (p : ℕ) : flipBit w p p = w p ^^^ 1 :=
  Function.update_self ..

theorem flipBit_of_ne (w : ℕ → UInt8) {p j : ℕ} (h : j ≠ p) : flipBit w p j = w j :=
  Function.update_of_ne h ..

/-- A flip adds the column of its place to the answers. -/
theorem mulVec_bits_flipBit (H : Matrix (Fin r) (Fin n) (ZMod 2)) (w : ℕ → UInt8) (p : Fin n) :
    H *ᵥ bits n (flipBit w p) = H *ᵥ bits n w + H.col p := by
  have hagree : ∀ j, j ≠ p → bits n (flipBit w p) j = bits n w j := by
    intro j hj
    rw [bits, bits, flipBit_of_ne w (Fin.val_ne_of_ne hj)]
  have hp : bits n (flipBit w p) p = bits n w p + 1 := by
    rw [bits, bits, flipBit_self, bit_xor_one]
  rw [mulVec_of_agree H hagree, hp, add_sub_cancel_left, one_smul]

theorem mulVec_flipBit (c : Code n k r) (w : ℕ → UInt8) (p : Fin n) :
    c.matrix *ᵥ bits n (flipBit w p) = c.matrix *ᵥ bits n w + c.matrix.col p :=
  mulVec_bits_flipBit c.matrix w p

/-- What a correction leaves: the word itself where its checks are answered by zero, and
else the word with the bit flipped whose column the syndrome is. -/
theorem correct_eq_some (h : correct c w = some v) :
    (v = w ∧ IsCodeword c w) ∨
      ∃ p : Fin n, v = flipBit w p ∧ c.matrix *ᵥ bits n w = c.matrix.col p := by
  rw [correct] at h
  split_ifs at h with hs
  · obtain ⟨p, hp, rfl⟩ := Option.map_eq_some_iff.mp h
    obtain ⟨l, l', hl, -⟩ := List.lookup_eq_some_iff.mp hp
    obtain ⟨q, hq⟩ := c.corrected (syndromeI c w, p) (by simp [hl])
    obtain ⟨hsyn, rfl⟩ := Prod.mk.inj hq
    refine .inr ⟨q, rfl, ?_⟩
    exact number_injective (by rw [← syndromeI_eq, hsyn])
  · obtain rfl := Option.some.inj h
    exact .inl ⟨rfl, (isCodeword_iff c w).mpr (by omega)⟩

theorem isSome_correct_of_lookup (h : (c.mCorr.lookup (syndromeI c w)).isSome) :
    (correct c w).isSome := by
  rw [correct]
  split_ifs
  · rw [Option.isSome_map]
    exact h
  · rfl

theorem correct_of_column {p : Fin n} (h : c.matrix *ᵥ bits n w = c.matrix.col p) :
    correct c w = some (flipBit w p) := by
  have hlookup : c.mCorr.lookup (syndromeI c w) = some p.val := by
    rw [syndromeI_eq, h]
    exact c.corrects p
  have hpos : syndromeI c w > 0 := by
    rw [gt_iff_lt, Nat.pos_iff_ne_zero, ne_eq, syndromeI_eq, h, number_eq_zero]
    exact c.columns p
  rw [correct, if_pos hpos, hlookup]
  rfl

/-- A corrected word answers every check by zero. -/
theorem isCodeword_of_correct (h : correct c w = some v) : IsCodeword c v := by
  rcases correct_eq_some h with ⟨rfl, hw⟩ | ⟨p, rfl, hp⟩
  · exact hw
  · rw [IsCodeword, mulVec_flipBit, hp]
    ext s
    exact CharTwo.add_self_eq_zero _

/-- A word that agrees with a codeword outside one place is corrected: the other places
stay, and the place itself is restored unless more than its low bit was wrong. -/
theorem correct_of_agree (hw : IsCodeword c w) (p : Fin n) (h : ∀ j, j < n → j ≠ p → v j = w j) :
    ∃ u, correct c v = some u ∧ (∀ j, j < n → j ≠ p → u j = w j) ∧
      (v p = w p ∨ v p = w p ^^^ 1 → u p = w p) := by
  have hagree : ∀ j, j ≠ p → bits n v j = bits n w j := by
    intro j hj
    rw [bits, bits, h j j.isLt (Fin.val_ne_of_ne hj)]
  have hsyn := mulVec_of_agree c.matrix hagree
  rw [hw, zero_add] at hsyn
  rcases bit_cases (bits n v p - bits n w p) with hd | hd
  · have hv : IsCodeword c v := by rw [IsCodeword, hsyn, hd, zero_smul]
    refine ⟨v, correct_of_isCodeword hv, h, ?_⟩
    rintro (hp | hp)
    · exact hp
    · rw [bits, bits, hp, bit_xor_one, add_sub_cancel_left] at hd
      exact absurd hd one_ne_zero
  · rw [hd, one_smul] at hsyn
    refine ⟨flipBit v p, correct_of_column hsyn, ?_, ?_⟩
    · intro j hj hjp
      rw [flipBit_of_ne v hjp, h j hj hjp]
    · rintro (hp | hp)
      · rw [bits, bits, hp, sub_self] at hd
        exact absurd hd zero_ne_one
      · rw [flipBit_self, hp, UInt8.xor_assoc, UInt8.xor_self, UInt8.xor_zero]

/-- The information bits written back over the word they were read from. -/
def inject (decodedBits : Fin k → UInt8) (line : ℕ → UInt8) : ℕ → UInt8 :=
  fun j => if h : j < k then decodedBits ⟨j, h⟩ else line j

theorem inject_of_lt (decodedBits : Fin k → UInt8) (line : ℕ → UInt8) {j : ℕ} (h : j < k) :
    inject decodedBits line j = decodedBits ⟨j, h⟩ := dif_pos h

theorem inject_of_le (decodedBits : Fin k → UInt8) (line : ℕ → UInt8) {j : ℕ} (h : k ≤ j) :
    inject decodedBits line j = line j := dif_neg (by omega)

@[simp] theorem inject_information (line : ℕ → UInt8) :
    inject (information k line) line = line := by
  ext1 j
  by_cases h : j < k
  · rw [inject_of_lt _ _ h]
    rfl
  · rw [inject_of_le _ _ (by omega)]

/-- A line that was corrected and written back is corrected again. -/
theorem isSome_correct_inject (h : correct c w = some v) :
    (correct c (inject (information k v) w)).isSome := by
  have hv := isCodeword_of_correct h
  rcases correct_eq_some h with ⟨rfl, -⟩ | ⟨p, rfl, -⟩
  · rw [inject_information, h]
    rfl
  · by_cases hp : p.val < k
    · have heq : inject (information k (flipBit w p)) w = flipBit w p := by
        ext1 j
        by_cases hj : j < k
        · rw [inject_of_lt _ _ hj]
          rfl
        · rw [inject_of_le _ _ (by omega), flipBit_of_ne _ (by omega)]
      rw [heq, correct_of_isCodeword hv]
      rfl
    · have heq : inject (information k (flipBit w p)) w = w := by
        ext1 j
        by_cases hj : j < k
        · rw [inject_of_lt _ _ hj, information, flipBit_of_ne _ (by simp; omega)]
        · rw [inject_of_le _ _ (by omega)]
      rw [heq, h]
      rfl

/-- The table of the (15,11) code has a place for every syndrome. -/
theorem isSome_correct_hamming1511 (w : ℕ → UInt8) : (correct hamming1511 w).isSome := by
  have htable : ∀ v : Fin 4 → ZMod 2, number v > 0 →
      (hamming1511.mCorr.lookup (number v)).isSome := by
    decide
  rw [correct]
  split_ifs with h
  · rw [Option.isSome_map]
    rw [syndromeI_eq] at h ⊢
    exact htable _ h
  · rfl

theorem bits_add_eq_zero {v w : Fin r → ZMod 2} : v + w = 0 ↔ v = w := by
  rw [add_eq_zero_iff_eq_neg, show -w = w from funext fun s => CharTwo.neg_eq (w s)]

theorem isCodeword_flipBit (c : Code n k r) (rxBits : ℕ → UInt8) (p : Fin n) :
    IsCodeword c (flipBit rxBits p) ↔ c.matrix *ᵥ bits n rxBits = c.matrix.col p := by
  rw [IsCodeword, mulVec_flipBit]
  exact bits_add_eq_zero

/-- Every place of the (16,11,4) code is in an odd number of checks. -/
theorem sum_col_hamming16114 (p : Fin 16) : ∑ s, hamming16114.matrix.col p s = 1 := by
  revert p
  decide

theorem correct_two_flips (hw : IsCodeword hamming16114 w) {p q : Fin 16} (hpq : p ≠ q) :
    correct hamming16114 (flipBit (flipBit w p) q) = none := by
  have hsyn : hamming16114.matrix *ᵥ bits 16 (flipBit (flipBit w p) q) =
      hamming16114.matrix.col p + hamming16114.matrix.col q := by
    rw [mulVec_flipBit, mulVec_flipBit, hw, zero_add]
  refine Option.eq_none_iff_forall_ne_some.mpr fun v hv => ?_
  rcases correct_eq_some hv with ⟨-, hzero⟩ | ⟨s, -, hs⟩
  · have hsame := bits_add_eq_zero.mp (hsyn.symm.trans hzero)
    have hplace := hamming16114.corrects p
    rw [hsame, hamming16114.corrects q] at hplace
    exact hpq (Fin.ext (Option.some.inj hplace).symm)
  · have hsum := congrArg (fun u => ∑ i, u i) (hsyn.symm.trans hs)
    simp only [Pi.add_apply, Finset.sum_add_distrib, sum_col_hamming16114] at hsum
    exact absurd hsum (by decide)

/-- The decoders restore exactly the words at most one flip away from a codeword and leave every
other as it came. No word is one too far for the (15,11) code; two flips are for (16,11,4). -/
theorem hammingDecode_exact :
    (∀ {n k r : ℕ} (c : Code n k r) (rxBits : ℕ → UInt8) (decodedBits : Fin k → UInt8),
      (IsCodeword c rxBits →
        decode c rxBits decodedBits = ⟨true, rxBits, information k rxBits⟩) ∧
      (∀ p : Fin n, IsCodeword c (flipBit rxBits p) → decode c rxBits decodedBits =
        ⟨true, flipBit rxBits p, information k (flipBit rxBits p)⟩) ∧
      (¬IsCodeword c rxBits → (∀ p : Fin n, ¬IsCodeword c (flipBit rxBits p)) →
        decode c rxBits decodedBits = ⟨false, rxBits, decodedBits⟩)) ∧
    (∀ rxBits decodedBits, (hamming1511Decode rxBits decodedBits).correctable = true) ∧
    ∀ w decodedBits (p q : Fin 16), IsCodeword hamming16114 w → p ≠ q →
      hamming16114Decode (flipBit (flipBit w p) q) decodedBits =
        ⟨false, flipBit (flipBit w p) q, decodedBits⟩ := by
  refine ⟨fun c rxBits decodedBits => ⟨fun hw => ?_, fun p hp => ?_, fun hw hflips => ?_⟩,
    fun rxBits decodedBits => ?_, fun w decodedBits p q hw hpq => ?_⟩
  · rw [decode, correct_of_isCodeword hw]
  · rw [decode, correct_of_column ((isCodeword_flipBit c rxBits p).mp hp)]
  · rw [decode]
    cases hc : correct c rxBits with
    | none => rfl
    | some v =>
      rcases correct_eq_some hc with ⟨-, hzero⟩ | ⟨p, -, hp⟩
      · exact absurd hzero hw
      · exact absurd ((isCodeword_flipBit c rxBits p).mpr hp) (hflips p)
  · rw [hamming1511Decode, decode_correctable]
    exact isSome_correct_hamming1511 rxBits
  · rw [hamming16114Decode, decode, correct_two_flips hw hpq]

/-- A codeword of the shortest code with a bit flipped. -/
def flippedWord (i : ℕ) : UInt8 := if i ∈ [4, 8, 11, 12] then 1 else 0

/-- The flip is found and undone. -/
theorem hammingDecode_exact_flipped :
    hamming139Decode flippedWord (fun _ => 0) =
      ⟨true, flipBit flippedWord 4, information 9 (flipBit flippedWord 4)⟩ := by
  have hword : IsCodeword hamming139 (flipBit flippedWord 4) := by
    rw [isCodeword_iff]
    decide +kernel
  exact (hammingDecode_exact.1 hamming139 flippedWord fun _ => 0).2.1 4 hword

end DsdNeo.Fec.Hamming
