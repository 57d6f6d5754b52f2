import DsdNeo.Models.P25.Golay24Exact

/-!
# The verdict on a Golay word of P25

`DSDGolay24::decode_12`: twelve data bits with twelve parity bits, one bit a character, packed
into a codeword and unpacked after the correction. Where the parity of the corrected word is odd,
the correction is discarded only if the low six data bits are not all zero, which is the rule for
words of six bits. So the verdict depends on the message, and a single error in the parity bit
can fail it.
-/

namespace DsdNeo.P25.Golay24

open Bits

variable {n : ℕ}

/-- `bit_is_valid`. -/
def bitIsValid (bit : BitVec 8) : Bool := bit = 0 || bit = 1

/-- `word_bits_are_valid`. -/
def wordBitsAreValid (word : Vector (BitVec 8) n) : Bool := decide (n ≤ 12) && word.all bitIsValid

/-- `parity_bits_are_valid`. -/
def parityBitsAreValid (parity : Vector (BitVec 8) 12) : Bool := parity.all bitIsValid

/-- One bit shifted into a codeword. -/
def pushBit (bit : BitVec 8) (codeword : BitVec 32) : BitVec 32 :=
  (codeword <<< 1) ||| bit.setWidth 32

/-- `adapt_to_codeword`: the last bits come first. -/
def adaptToCodeword (word : Vector (BitVec 8) n) (parity : Vector (BitVec 8) 12) : BitVec 32 :=
  if !wordBitsAreValid word || !parityBitsAreValid parity then 0
  else
    let codeword := word.toList.foldr pushBit (parity.toList.foldr pushBit 0)
    if n < 12 then codeword <<< (12 - n) else codeword

/-- A bit as a character. -/
def bitChar (b : Bool) : BitVec 8 := if b then 1 else 0

/-- `adapt_to_word`. -/
def adaptToWord (codeword : BitVec 32) (n : ℕ) : Vector (BitVec 8) n :=
  Vector.ofFn fun i => bitChar (codeword &&& (1#32 <<< (12 - n) <<< i.val) ≠ 0)

/-- The parity `encode_12` writes. -/
def parityWord (codeword : BitVec 32) : Vector (BitVec 8) 12 :=
  Vector.ofFn fun i => bitChar (codeword &&& (1#32 <<< 12 <<< i.val) ≠ 0)

/-- What a decoder returns, with the word and the count it leaves. -/
structure Verdict (n : ℕ) where
  result : ℤ
  word : Vector (BitVec 8) n
  fixedErrors : ℕ
  deriving DecidableEq

/-- `decode_12`. -/
def decode12 (dodeca parity : Vector (BitVec 8) 12) : Verdict 12 :=
  if !wordBitsAreValid dodeca || !parityBitsAreValid parity then ⟨1, dodeca, 0⟩
  else
    let decoded := decode (adaptToCodeword dodeca parity)
    if decoded.uncorrectable = 1 ∧ decoded.cw &&& 0x3f ≠ 0 then
      ⟨decoded.uncorrectable, dodeca, decoded.errs⟩
    else ⟨0, adaptToWord decoded.cw 12, decoded.errs⟩

theorem golay_eq (data : BitVec 32) :
    golay data = (divideBit^[12] (data &&& 0xfff) <<< 12) ^^^ (data &&& 0xfff) := by
  have hmask : (0xfff : BitVec 32).toNat = 2 ^ 12 - 1 := by decide
  rw [golay]
  refine BitVec.eq_of_getLsbD_eq fun k hk => ?_
  rw [BitVec.getLsbD_or, BitVec.getLsbD_xor, BitVec.getLsbD_shiftLeft]
  have hdata : (data &&& 0xfff).getLsbD k = (data.getLsbD k && decide (k < 12)) := by
    rw [BitVec.getLsbD_and, ← BitVec.testBit_toNat (0xfff : BitVec 32), hmask,
      Nat.testBit_two_pow_sub_one]
  rw [hdata]
  by_cases hlow : k < 12 <;> simp [hlow]

theorem golay_linear : IsLinear golay := by
  have hdata : IsLinear fun data : BitVec 32 => data &&& 0xfff := isLinear_and 0xfff
  have hsum : IsLinear fun data : BitVec 32 =>
      (divideBit^[12] (data &&& 0xfff) <<< 12) ^^^ (data &&& 0xfff) :=
    ((isLinear_shiftLeft 12).comp ((divideBit_linear.iterate 12).comp hdata)).xor hdata
  intro a b
  have hab := hsum a b
  simp only [← golay_eq] at hab
  exact hab

variable {data w v : BitVec 32}

/-- Encoded data is a code word over the data. -/
theorem golay_isCodeword (h : Below 12 data) :
    IsCodeword (golay data) ∧ golay data &&& 0xfff = data := by
  have hmasked : golay data &&& 0x7fffff = golay data := by
    refine ((isLinear_and 0x7fffff).comp golay_linear).eq_below golay_linear (k := 12) ?_ h
    decide +kernel
  have hdivided : syndrome (golay data) = 0 := by
    refine (syndrome_linear.comp golay_linear).eq_below (g := fun _ => 0)
      (fun _ _ => BitVec.xor_self.symm) (k := 12) ?_ h
    decide +kernel
  refine ⟨⟨hmasked ▸ below_mask _, hdivided⟩, ?_⟩
  refine ((isLinear_and 0xfff).comp golay_linear).eq_below isLinear_id (k := 12) ?_ h
  decide +kernel

theorem parity_eq (h : Below 24 w) : parity w = if Odd (weight w) then 1 else 0 := by
  have hbits : ∀ k < 24, parity (1#32 <<< k) = 1 := by decide
  have hlist : ∀ l : List ℕ, (∀ k ∈ l, k < 24) →
      parity (ofPositions 32 l) = if Odd l.length then 1 else 0 := by
    intro l hl
    induction l with
    | nil => exact parity_linear.map_zero
    | cons k l ih =>
      have hcons : ofPositions 32 (k :: l) = (1#32 <<< k) ^^^ ofPositions 32 l := rfl
      rw [hcons, parity_linear, hbits k (hl k List.mem_cons_self),
        ih fun j hj => hl j (List.mem_cons_of_mem k hj), List.length_cons]
      by_cases hodd : Odd l.length
      · rw [if_pos hodd, if_neg (Nat.not_odd_iff_even.mpr hodd.add_one)]
        decide
      · rw [if_neg hodd, if_pos (Nat.not_odd_iff_even.mp hodd).add_one]
        decide
  rw [weight, ← hlist (positions w) h, ofPositions_positions]

theorem below_encode (h : Below 12 data) : Below 24 (encode data) := by
  have hcode := (golay_isCodeword h).1.below.mono (by decide : 23 ≤ 24)
  rw [encode]
  split
  · exact hcode.xor (by decide)
  · exact hcode

theorem parity_encode (h : Below 12 data) : parity (encode data) = 0 := by
  have hcode := (golay_isCodeword h).1.below.mono (by decide : 23 ≤ 24)
  have hbit : parity 0x800000 = 1 := by decide
  rw [encode]
  by_cases hodd : parity (golay data) = 0
  · rw [if_neg (not_not.mpr hodd), hodd]
  · rw [if_pos hodd, parity_linear, hbit]
    rw [parity_eq hcode] at hodd ⊢
    by_cases hw : Odd (weight (golay data))
    · rw [if_pos hw]
      decide
    · rw [if_neg hw] at hodd
      exact absurd rfl hodd

theorem encode_masked (h : Below 12 data) : encode data &&& 0x7fffff = golay data := by
  have hmask := and_mask (golay_isCodeword h).1.below
  rw [encode]
  split
  · rw [xor_and, hmask]
    exact BitVec.xor_zero
  · exact hmask

theorem masked_xor_parityBit (h : Below 24 w) : (w &&& 0x7fffff) ^^^ (w &&& 0x800000) = w := by
  refine ((isLinear_and 0x7fffff).xor (isLinear_and 0x800000)).eq_below isLinear_id (k := 24) ?_ h
  decide

theorem masked_eq (h : Below 24 w) : w &&& ~~~0x800000 = w &&& 0x7fffff := by
  refine (isLinear_and (~~~0x800000)).eq_below (isLinear_and 0x7fffff) (k := 24) ?_ h
  decide

theorem or_parityBit {c : BitVec 32} (h : Below 23 c) :
    c ||| (w &&& 0x800000) = c ^^^ (w &&& 0x800000) := by
  have hmask : (0x800000 : BitVec 32) = BitVec.twoPow 32 23 := by decide
  refine BitVec.eq_of_getLsbD_eq fun k hk => ?_
  rw [BitVec.getLsbD_or, BitVec.getLsbD_xor, hmask, BitVec.getLsbD_and, BitVec.getLsbD_twoPow]
  by_cases h23 : 23 = k
  · subst h23
    have hclear : c.getLsbD 23 = false := by
      by_contra hset
      exact absurd (h 23 (mem_positions.mpr (Bool.eq_true_of_not_eq_false hset))) (by decide)
    rw [hclear, Bool.false_or, Bool.false_xor]
  · simp [h23]

theorem decode_received {e : BitVec 32} (hdata : Below 12 data) (he : Below 24 e) (hv : IsPattern v)
    (hs : syndrome (e ^^^ v) = 0) :
    decode (encode data ^^^ e) =
      ⟨if Odd (weight (e ^^^ v)) then 1 else 0, encode data ^^^ (e ^^^ v), (correct v).errs⟩ := by
  have hrest : Below 24 (e ^^^ v) := he.xor (hv.below.mono (by decide))
  have hword := (below_encode hdata).xor he
  obtain ⟨hgolay, -⟩ := golay_isCodeword hdata
  have hmaskv := and_mask hv.below
  have hcode : IsCodeword (golay data ^^^ ((e ^^^ v) &&& 0x7fffff)) := by
    refine ⟨hgolay.below.xor (below_mask _), ?_⟩
    rw [hgolay.syndrome_xor, syndrome, and_mask (below_mask _)]
    exact hs
  have hsum : (encode data ^^^ e) &&& 0x7fffff =
      (golay data ^^^ ((e ^^^ v) &&& 0x7fffff)) ^^^ v := by
    rw [xor_and, xor_and e v, encode_masked hdata, hmaskv, BitVec.xor_assoc, BitVec.xor_assoc,
      BitVec.xor_self, BitVec.xor_zero]
  have hparity : (encode data ^^^ e) &&& 0x800000 =
      (encode data ^^^ (e ^^^ v)) &&& 0x800000 := by
    have hv0 : v &&& 0x800000 = 0 := by
      refine (isLinear_and 0x800000).eq_below (g := fun _ => 0) (fun _ _ => BitVec.xor_self.symm)
        (k := 23) ?_ hv.below
      decide
    rw [← BitVec.xor_assoc, xor_and _ v, hv0]
    exact BitVec.xor_zero.symm
  have hcorrect : (correct ((encode data ^^^ e) &&& 0x7fffff)).cw =
      golay data ^^^ ((e ^^^ v) &&& 0x7fffff) := by
    rw [hsum, correct_codeword hcode hv.below, Corrected.onto, (correct_pattern hv).1]
    exact BitVec.xor_zero
  have herrs : (correct ((encode data ^^^ e) &&& 0x7fffff)).errs = (correct v).errs := by
    rw [hsum, correct_codeword hcode hv.below, Corrected.onto]
  have hcw : (golay data ^^^ ((e ^^^ v) &&& 0x7fffff)) |||
      ((encode data ^^^ e) &&& 0x800000) = encode data ^^^ (e ^^^ v) := by
    have hmasked : (encode data ^^^ (e ^^^ v)) &&& 0x7fffff =
        golay data ^^^ ((e ^^^ v) &&& 0x7fffff) := by
      rw [xor_and, encode_masked hdata]
    rw [or_parityBit hcode.below, hparity, ← hmasked]
    exact masked_xor_parityBit ((below_encode hdata).xor hrest)
  have hparityWord : parity (encode data ^^^ (e ^^^ v)) = if Odd (weight (e ^^^ v)) then
    1 else 0 := by
    rw [parity_linear, parity_encode hdata, parity_eq hrest]
    exact BitVec.zero_xor
  rw [decode, masked_eq hword, hcorrect, herrs, hcw, hparityWord]
  by_cases hodd : Odd (weight (e ^^^ v))
  · rw [if_pos hodd, if_pos hodd]
    rfl
  · rw [if_neg hodd, if_neg hodd]
    rfl

theorem bitIsValid_bitChar (b : Bool) : bitIsValid (bitChar b) = true := by
  cases b <;> rfl

theorem getLsbD_bitChar (b : Bool) (k : ℕ) :
    ((bitChar b).setWidth 32).getLsbD k = (b && decide (k = 0)) := by
  cases b with
  | false => simp [bitChar]
  | true => simp [bitChar, BitVec.getLsbD_one]

theorem getLsbD_pushed (bits : List Bool) (codeword : BitVec 32) {k : ℕ} (hk : k < 32) :
    ((bits.map bitChar).foldr pushBit codeword).getLsbD k =
      if k < bits.length then bits.getD k false else codeword.getLsbD (k - bits.length) := by
  induction bits generalizing k with
  | nil => rfl
  | cons b bits ih =>
    rw [List.map_cons, List.foldr_cons, pushBit, BitVec.getLsbD_or, BitVec.getLsbD_shiftLeft,
      getLsbD_bitChar]
    cases k with
    | zero => simp
    | succ k => simp [hk, ih (by omega : k < 32)]

/-- The bits of a codeword in its characters, from a position on. -/
def bitsFrom (codeword : BitVec 32) (j : ℕ) : List Bool :=
  (List.range 12).map fun i => codeword.getLsbD (j + i)

theorem tested_eq (codeword : BitVec 32) {j i : ℕ} (h : j + i < 32) :
    decide (codeword &&& (1#32 <<< j <<< i) ≠ 0) = codeword.getLsbD (j + i) := by
  have hmask : 1#32 <<< j <<< i = BitVec.twoPow 32 (j + i) := by
    rw [BitVec.twoPow_eq, BitVec.shiftLeft_add]
  have hbit := and_twoPow_eq_zero codeword h
  rw [hmask]
  cases hset : codeword.getLsbD (j + i) with
  | false => simpa [hset] using hbit
  | true => simpa [hset] using hbit

theorem toList_adaptToWord (codeword : BitVec 32) :
    (adaptToWord codeword 12).toList = (bitsFrom codeword 0).map bitChar := by
  rw [adaptToWord, Vector.toList_ofFn, bitsFrom, List.map_map]
  refine List.ext_getElem (by simp) fun i hi _ => ?_
  have hi12 : i < 12 := by simpa using hi
  simp only [List.getElem_ofFn, List.getElem_map, List.getElem_range, Function.comp_apply]
  rw [← tested_eq codeword (by omega : 0 + i < 32)]

theorem toList_parityWord (codeword : BitVec 32) :
    (parityWord codeword).toList = (bitsFrom codeword 12).map bitChar := by
  rw [parityWord, Vector.toList_ofFn, bitsFrom, List.map_map]
  refine List.ext_getElem (by simp) fun i hi _ => ?_
  have hi12 : i < 12 := by simpa using hi
  simp only [List.getElem_ofFn, List.getElem_map, List.getElem_range, Function.comp_apply]
  rw [← tested_eq codeword (by omega : 12 + i < 32)]

theorem adaptToCodeword_characters {codeword : BitVec 32} (h : Below 24 codeword) :
    adaptToCodeword (adaptToWord codeword 12) (parityWord codeword) = codeword := by
  have hword : wordBitsAreValid (adaptToWord codeword 12) = true := by
    simp [wordBitsAreValid, adaptToWord, bitIsValid_bitChar]
  have hparity : parityBitsAreValid (parityWord codeword) = true := by
    simp [parityBitsAreValid, parityWord, bitIsValid_bitChar]
  rw [adaptToCodeword, hword, hparity, toList_adaptToWord, toList_parityWord]
  refine BitVec.eq_of_getLsbD_eq fun k hk => ?_
  change ((((bitsFrom codeword 0).map bitChar).foldr pushBit
    (((bitsFrom codeword 12).map bitChar).foldr pushBit 0)).getLsbD k) = _
  have hlen : ∀ j, (bitsFrom codeword j).length = 12 := fun j => by simp [bitsFrom]
  have hget : ∀ j i, i < 12 → (bitsFrom codeword j).getD i false = codeword.getLsbD (j + i) := by
    intro j i hi
    simp [bitsFrom, hi]
  rw [getLsbD_pushed _ _ hk, hlen]
  by_cases hlow : k < 12
  · rw [if_pos hlow, hget 0 k hlow, Nat.zero_add]
  · rw [if_neg hlow, getLsbD_pushed _ _ (by omega), hlen]
    by_cases hmid : k - 12 < 12
    · rw [if_pos hmid, hget 12 _ hmid, Nat.add_sub_cancel' (not_lt.mp hlow)]
    · rw [if_neg hmid]
      have hclear : codeword.getLsbD k = false := by
        by_contra hset
        have := h k (mem_positions.mpr (Bool.eq_true_of_not_eq_false hset))
        omega
      rw [hclear]
      exact BitVec.getLsbD_zero

/-- What is received of a message. -/
def received (m : BitVec 12) (e : BitVec 24) : BitVec 32 := encode (m.setWidth 32) ^^^ e.setWidth 32

/-- The verdict on it. -/
def verdict (m : BitVec 12) (e : BitVec 24) : Verdict 12 :=
  decode12 (adaptToWord (received m e) 12) (parityWord (received m e))

/-- How many bits the correction of a codeword changes. -/
def bitsChanged (cw : BitVec 32) : ℕ := weight (cw ^^^ (decode cw).cw)

/-- The verdicts on two messages under one error are the same and right. -/
structure VerdictOfError (m₁ m₂ : BitVec 12) (e : BitVec 24) : Prop where
  sameResult : (verdict m₁ e).result = (verdict m₂ e).result
  sameCount : (verdict m₁ e).fixedErrors = (verdict m₂ e).fixedErrors
  counted : ∀ m ∈ [m₁, m₂], (verdict m e).fixedErrors = bitsChanged (received m e)
  restored : weight e ≤ 3 → ∀ m ∈ [m₁, m₂],
    (verdict m e).result = 0 ∧ (verdict m e).word = adaptToWord (m.setWidth 32) 12
  rejected : weight e = 4 → ∀ m ∈ [m₁, m₂],
    (verdict m e).result = 1 ∧ (verdict m e).word = adaptToWord (received m e) 12

/-- The low six data bits of a message with a codeword over it. -/
def LowZero (m : BitVec 12) (c : BitVec 32) : Prop := (m.setWidth 32 ^^^ c) &&& 0x3f = 0

instance (m : BitVec 12) (c : BitVec 32) : Decidable (LowZero m c) :=
  inferInstanceAs (Decidable (_ = _))

theorem below_setWidth (m : BitVec n) : Below n (m.setWidth 32) := by
  rw [below_iff_toNat_lt, BitVec.toNat_setWidth]
  exact (Nat.mod_le _ _).trans_lt m.isLt

theorem weight_setWidth {n : ℕ} (hn : n ≤ 32) (w : BitVec n) :
    weight (w.setWidth 32) = weight w := by
  have hperm : (positions (w.setWidth 32)).Perm (positions w) := by
    refine (List.perm_ext_iff_of_nodup (nodup_positions _) (nodup_positions w)).mpr fun k => ?_
    rw [mem_positions, mem_positions, BitVec.getLsbD_setWidth]
    by_cases hk : k < 32
    · simp [hk]
    · simp [hk, BitVec.getLsbD_of_ge w k (by omega)]
  exact hperm.length_eq

theorem encode_low (h : Below 12 data) (mask : BitVec 32) (hmask : mask &&& 0xfff = mask) :
    encode data &&& mask = data &&& mask := by
  obtain ⟨-, hdata⟩ := golay_isCodeword h
  have hlow : encode data &&& 0xfff = data := by
    have h23 : (0x7fffff : BitVec 32) &&& 0xfff = 0xfff := by decide
    rw [← h23, ← BitVec.and_assoc, encode_masked h, hdata]
  rw [← hmask, BitVec.and_comm mask, ← BitVec.and_assoc, hlow, BitVec.and_comm 0xfff, hmask]

variable {m : BitVec 12} {e : BitVec 24}

/-- The verdict by the error that is taken away. -/
theorem verdict_eq (hv : IsPattern v) (hs : syndrome (e.setWidth 32 ^^^ v) = 0) :
    verdict m e =
      if Odd (weight (e.setWidth 32 ^^^ v)) ∧ ¬ LowZero m (e.setWidth 32 ^^^ v) then
        ⟨1, adaptToWord (received m e) 12, (correct v).errs⟩
      else
        ⟨0, adaptToWord (encode (m.setWidth 32) ^^^ (e.setWidth 32 ^^^ v)) 12,
          (correct v).errs⟩ := by
  have hm := below_setWidth m
  have he := below_setWidth e
  have hword : wordBitsAreValid (adaptToWord (received m e) 12) = true := by
    simp [wordBitsAreValid, adaptToWord, bitIsValid_bitChar]
  have hparity : parityBitsAreValid (parityWord (received m e)) = true := by
    simp [parityBitsAreValid, parityWord, bitIsValid_bitChar]
  have hpacked := adaptToCodeword_characters ((below_encode hm).xor he)
  have hdecoded := decode_received hm he hv hs
  have hlow : (encode (m.setWidth 32) ^^^ (e.setWidth 32 ^^^ v)) &&& 0x3f =
      (m.setWidth 32 ^^^ (e.setWidth 32 ^^^ v)) &&& 0x3f := by
    rw [xor_and, encode_low hm 0x3f (by decide), ← xor_and]
  rw [verdict, decode12, hword, hparity, received, hpacked, hdecoded]
  dsimp only
  rw [hlow, if_neg (by decide : ¬ (!true || !true) = true)]
  by_cases hodd : Odd (weight (e.setWidth 32 ^^^ v))
  · by_cases hzero : (m.setWidth 32 ^^^ (e.setWidth 32 ^^^ v)) &&& 0x3f = 0
    · rw [if_neg fun hno => hno.2 hzero, if_neg fun hno => hno.2 hzero]
    · rw [if_pos hodd, if_pos ⟨rfl, hzero⟩, if_pos ⟨hodd, hzero⟩]
  · rw [if_neg hodd, if_neg fun hno => absurd hno.1 (by decide), if_neg fun hno => hodd hno.1]

theorem bitsChanged_received (hv : IsPattern v) (hs : syndrome (e.setWidth 32 ^^^ v) = 0) :
    bitsChanged (received m e) = weight v := by
  have hdecoded := decode_received (below_setWidth m) (below_setWidth e) hv hs
  rw [bitsChanged, received, hdecoded]
  congr 1
  rw [← BitVec.xor_assoc (encode (m.setWidth 32)), ← BitVec.xor_assoc, BitVec.xor_self]
  exact BitVec.zero_xor

theorem pattern_of_three {e : BitVec 32} (hv : IsPattern v) (hs : syndrome (e ^^^ v) = 0)
    (hlight : weight e ≤ 3) : e &&& 0x7fffff = v := by
  have hpattern : IsPattern (e &&& 0x7fffff) :=
    ⟨below_mask e, (weight_and_le e 0x7fffff).trans hlight⟩
  refine hpattern.unique hv ?_
  rw [syndrome_mask]
  rw [syndrome_linear] at hs
  exact BitVec.xor_eq_zero_iff.mp hs

/-- The correction of four errors makes seven of them, or takes three away. -/
theorem weight_of_four {e : BitVec 32} (he : Below 24 e) (hv : IsPattern v)
    (hs : syndrome (e ^^^ v) = 0) (hfour : weight e = 4) : weight v = 3 := by
  by_contra hne
  have hlight := hv.light
  have hmasked := weight_and_le e 0x7fffff
  have hparity : weight (e &&& 0x800000) ≤ 1 := by
    have hmask : (0x800000 : BitVec 32) = BitVec.twoPow 32 23 := by decide
    rw [hmask, BitVec.and_twoPow]
    split <;> decide
  have hsum := weight_xor_le (e &&& 0x7fffff) (e &&& 0x800000)
  rw [masked_xor_parityBit he] at hsum
  have hrest : syndrome ((e &&& 0x7fffff) ^^^ v) = 0 := by
    rw [syndrome_linear, syndrome_mask, ← syndrome_linear]
    exact hs
  have hle := weight_xor_le (e &&& 0x7fffff) v
  have hzero := syndrome_detects _ ((below_mask e).xor hv.below) (by omega) hrest
  have hsame := BitVec.xor_eq_zero_iff.mp hzero
  rw [hsame] at hsum
  omega

theorem odd_of_four {e : BitVec 32} (he : Below 24 e) (hv : IsPattern v)
    (hs : syndrome (e ^^^ v) = 0) (hfour : weight e = 4) : Odd (weight (e ^^^ v)) := by
  have hthree := weight_of_four he hv hs hfour
  have hv24 := hv.below.mono (by decide : 23 ≤ 24)
  have hparity := parity_linear e v
  rw [parity_eq (he.xor hv24), parity_eq he, parity_eq hv24, hfour, hthree,
    if_neg (by decide : ¬ Odd 4), if_pos (by decide : Odd 3)] at hparity
  by_contra heven
  rw [if_neg heven] at hparity
  exact absurd hparity (by decide)

/-- Without up to three errors the data is what was sent. -/
theorem restored_of_three (hv : IsPattern v) (hs : syndrome (e.setWidth 32 ^^^ v) = 0)
    (hlight : weight e ≤ 3) :
    adaptToWord (encode (m.setWidth 32) ^^^ (e.setWidth 32 ^^^ v)) 12 =
      adaptToWord (m.setWidth 32) 12 := by
  have hm := below_setWidth m
  have hthree := pattern_of_three hv hs (by rwa [weight_setWidth (by decide)])
  have hgone : (e.setWidth 32 ^^^ v) &&& 0x7fffff = 0 := by
    rw [xor_and, hthree, and_mask hv.below]
    exact BitVec.xor_self
  have hlow : (encode (m.setWidth 32) ^^^ (e.setWidth 32 ^^^ v)) &&& 0xfff =
      m.setWidth 32 &&& 0xfff := by
    have hmask : (0x7fffff : BitVec 32) &&& 0xfff = 0xfff := by decide
    rw [xor_and, encode_low hm 0xfff (by decide), ← hmask, ← BitVec.and_assoc (e.setWidth 32 ^^^ v),
      hgone, hmask]
    simp
  rw [← Vector.toList_inj, toList_adaptToWord, toList_adaptToWord]
  refine congrArg (List.map bitChar) (List.map_congr_left fun i hi => ?_)
  have hi := List.mem_range.mp hi
  have hbit := congrArg (BitVec.getLsbD · i) hlow
  have hmask : (0xfff : BitVec 32).toNat = 2 ^ 12 - 1 := by decide
  simpa only [BitVec.getLsbD_and, ← BitVec.testBit_toNat (0xfff : BitVec 32), hmask,
    Nat.testBit_two_pow_sub_one, decide_eq_true hi, Bool.and_true, Nat.zero_add] using hbit

theorem verdict_result (hv : IsPattern v) (hs : syndrome (e.setWidth 32 ^^^ v) = 0) :
    (verdict m e).result =
      if Odd (weight (e.setWidth 32 ^^^ v)) ∧ ¬ LowZero m (e.setWidth 32 ^^^ v) then 1 else 0 := by
  rw [verdict_eq hv hs]
  split <;> rfl

theorem verdict_fixedErrors (hv : IsPattern v) (hs : syndrome (e.setWidth 32 ^^^ v) = 0) :
    (verdict m e).fixedErrors = (correct v).errs := by
  rw [verdict_eq hv hs]
  split <;> rfl

/-- The verdicts are the same and right exactly where the errors of a word, all but those that make
up a code word, are among the checks after some turns, and, if they leave an odd parity, the low
six data bits decoded are zero for both messages or neither: for both after up to three errors,
and for neither after four. -/
theorem verdictOfError_iff (m₁ m₂ : BitVec 12) (e : BitVec 24) :
    VerdictOfError m₁ m₂ e ↔
      ∃ v, IsPattern v ∧ syndrome (e.setWidth 32 ^^^ v) = 0 ∧ Fits v ∧
        (Odd (weight (e.setWidth 32 ^^^ v)) →
          (LowZero m₁ (e.setWidth 32 ^^^ v) ↔ LowZero m₂ (e.setWidth 32 ^^^ v)) ∧
          (weight e ≤ 3 → LowZero m₁ (e.setWidth 32 ^^^ v)) ∧
          (weight e = 4 → ¬ LowZero m₁ (e.setWidth 32 ^^^ v))) := by
  have he := below_setWidth e
  have hweight : weight (e.setWidth 32) = weight e := weight_setWidth (by decide) e
  constructor
  · intro h
    obtain ⟨v, hv, hsyn⟩ := exists_pattern (below_mask (e.setWidth 32))
    have hs : syndrome (e.setWidth 32 ^^^ v) = 0 := by
      rw [syndrome_linear, hsyn, syndrome_mask]
      exact BitVec.xor_self
    have hcounted := h.counted m₁ (by simp)
    rw [verdict_fixedErrors hv hs, bitsChanged_received hv hs] at hcounted
    have hsame := h.sameResult
    rw [verdict_result hv hs, verdict_result hv hs] at hsame
    refine ⟨v, hv, hs, (correct_pattern hv).2.mp hcounted, fun hodd => ⟨?_, ?_, ?_⟩⟩
    · by_cases h₁ : LowZero m₁ (e.setWidth 32 ^^^ v) <;>
        by_cases h₂ : LowZero m₂ (e.setWidth 32 ^^^ v) <;>
        simp [hodd, h₁, h₂] at hsame ⊢
    · intro hthree
      have hresult := (h.restored hthree m₁ (by simp)).1
      rw [verdict_result hv hs] at hresult
      by_contra hlow
      rw [if_pos ⟨hodd, hlow⟩] at hresult
      exact absurd hresult (by decide)
    · intro hfour hlow
      have hresult := (h.rejected hfour m₁ (by simp)).1
      rw [verdict_result hv hs, if_neg fun hno => hno.2 hlow] at hresult
      exact absurd hresult (by decide)
  · rintro ⟨v, hv, hs, hfits, hodd⟩
    have hlow : ∀ m ∈ [m₁, m₂], Odd (weight (e.setWidth 32 ^^^ v)) →
        (LowZero m (e.setWidth 32 ^^^ v) ↔ LowZero m₁ (e.setWidth 32 ^^^ v)) := by
      intro m hm ho
      rcases List.mem_pair.mp hm with rfl | rfl
      · exact Iff.rfl
      · exact (hodd ho).1.symm
    constructor
    · rw [verdict_result hv hs, verdict_result hv hs]
      by_cases ho : Odd (weight (e.setWidth 32 ^^^ v))
      · simp only [ho, true_and, (hodd ho).1]
      · simp only [ho, false_and]
    · rw [verdict_fixedErrors hv hs, verdict_fixedErrors hv hs]
    · intro m _
      rw [verdict_fixedErrors hv hs, bitsChanged_received hv hs]
      exact (correct_pattern hv).2.mpr hfits
    · intro hthree m hm
      have hno : ¬ (Odd (weight (e.setWidth 32 ^^^ v)) ∧ ¬ LowZero m (e.setWidth 32 ^^^ v)) :=
        fun hno => hno.2 ((hlow m hm hno.1).mpr ((hodd hno.1).2.1 hthree))
      rw [verdict_eq hv hs, if_neg hno]
      exact ⟨rfl, restored_of_three hv hs hthree⟩
    · intro hfour m hm
      have ho := odd_of_four he hv hs (hweight.trans hfour)
      have hyes : ¬ LowZero m (e.setWidth 32 ^^^ v) :=
        fun hlow' => (hodd ho).2.2 hfour ((hlow m hm ho).mp hlow')
      rw [verdict_eq hv hs, if_pos ⟨ho, hyes⟩]
      exact ⟨rfl, rfl⟩

/-- An error in the parity bit alone: the word of zero is accepted, the word of one is not. -/
theorem verdict_of_parity_error : ¬ ∀ m₁ m₂ e, VerdictOfError m₁ m₂ e := by
  intro h
  have hsame := (h 0 1 0x800000).sameResult
  exact absurd hsame (by decide +kernel)

end DsdNeo.P25.Golay24
