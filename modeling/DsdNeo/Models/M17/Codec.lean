import DsdNeo.Models.Fec.HalfRate

/-!
# Coding of link setup, stream and test frames

`m17_algorithms.c` and the hard and soft depuncturing of `m17.c`: convolutional
encoding, puncturing, interleaving and randomizing of the 368 payload bits. The
bit buffers hold zeros and ones and every store masks its value to one bit, so
they are lists of booleans here; soft values and coded costs are naturals.
-/

namespace DsdNeo.M17

open Reorder Trellis HalfRate List

/-- `m17_scramble`; the last of its 369 entries is left to its zero default. -/
def scramble : List ℕ :=
  [1, 1, 0, 1, 0, 1, 1, 0, 1, 0, 1, 1, 0, 1, 0, 1, 1, 1, 1, 0, 0, 0, 1, 0, 0, 0, 1, 1, 0, 0, 0,
   0, 1, 0, 0, 0, 0, 0, 1, 0, 1, 1, 1, 1, 1, 1, 1, 1, 1, 0, 0, 0, 0, 1, 0, 0, 0, 1, 1, 0, 0, 0,
   1, 0, 1, 0, 1, 1, 1, 0, 1, 0, 0, 1, 0, 0, 1, 1, 1, 0, 1, 0, 0, 1, 0, 1, 1, 0, 1, 0, 0, 1, 0,
   0, 0, 0, 1, 1, 0, 1, 1, 0, 0, 0, 1, 0, 0, 1, 1, 0, 0, 0, 1, 1, 0, 1, 1, 1, 0, 1, 0, 1, 0, 1,
   1, 1, 0, 1, 0, 0, 0, 0, 1, 1, 0, 0, 1, 1, 0, 0, 1, 0, 0, 0, 0, 1, 0, 1, 0, 0, 1, 0, 0, 1, 0,
   0, 0, 0, 1, 1, 1, 0, 0, 1, 0, 0, 0, 1, 0, 0, 0, 1, 1, 1, 0, 1, 1, 1, 1, 1, 1, 0, 0, 0, 0, 1,
   1, 0, 1, 1, 1, 0, 0, 1, 1, 0, 1, 0, 0, 0, 0, 0, 1, 0, 1, 1, 1, 1, 0, 0, 1, 1, 0, 1, 0, 1, 1,
   1, 0, 1, 1, 0, 1, 0, 0, 0, 0, 1, 0, 1, 0, 0, 1, 1, 1, 0, 1, 0, 1, 0, 1, 1, 0, 0, 1, 1, 0, 1,
   0, 1, 1, 1, 0, 1, 1, 0, 0, 0, 0, 1, 1, 0, 0, 1, 1, 0, 0, 0, 1, 1, 0, 1, 1, 1, 0, 1, 0, 1, 0,
   1, 1, 0, 0, 0, 0, 0, 0, 0, 1, 1, 0, 1, 0, 0, 0, 1, 0, 0, 1, 1, 0, 0, 1, 1, 1, 0, 0, 0, 0, 1,
   1, 1, 0, 0, 0, 1, 0, 0, 1, 1, 0, 1, 0, 1, 0, 1, 1, 1, 0, 0, 0, 1, 1, 0, 0, 0, 0, 0, 1, 0, 1,
   1, 0, 1, 0, 0, 1, 0, 1, 0, 0, 1, 0, 1, 1, 1, 1, 0, 0, 0, 1, 1, 0, 0, 0, 0, 1, 1, 0]

/-- `m17_puncture_pattern_1`. -/
def puncturePattern1 : List ℕ :=
  [1, 1, 0, 1, 1, 1, 0, 1, 1, 1, 0, 1, 1, 1, 0, 1, 1, 1, 0, 1, 1, 1, 0, 1, 1, 1, 0, 1, 1, 1, 0,
   1, 1, 1, 0, 1, 1, 1, 0, 1, 1, 1, 0, 1, 1, 1, 0, 1, 1, 1, 0, 1, 1, 1, 0, 1, 1, 1, 0, 1, 1]

/-- `m17_puncture_pattern_2`. -/
def puncturePattern2 : List ℕ := [1, 1, 1, 1, 1, 1, 1, 1, 1, 1, 1, 0]

/-- The loop of `m17_convolution_encode_bits`: two sums of the delay line a bit. -/
def convolutionEncodeLoop : List Bool → Bool → Bool → Bool → Bool → List Bool
  | [], _, _, _, _ => []
  | d :: input, d1, d2, d3, d4 =>
    (d ^^ d3 ^^ d4) :: (d ^^ d1 ^^ d2 ^^ d4) :: convolutionEncodeLoop input d d1 d2 d3

/-- `m17_convolution_encode_bits`. -/
def convolutionEncodeBits (input : List Bool) : List Bool :=
  convolutionEncodeLoop input false false false false

/-- The loop of `m17_puncture_bits` from position `i` with `out` bits stored. -/
def punctureLoop (pattern : List ℕ) (capacity : ℕ) :
    ℕ → List Bool → List Bool → ℕ → List Bool × ℕ
  | _, [], output, out => (output, out)
  | i, b :: input, output, out =>
    if pattern.getD (i % pattern.length) 0 ≠ 0 ∧ out < capacity then
      punctureLoop pattern capacity (i + 1) input (output.set out b) (out + 1)
    else punctureLoop pattern capacity (i + 1) input output out

/-- `m17_puncture_bits`: the output buffer, the bits stored and the bits consumed. -/
def punctureBits (input : List Bool) (pattern : List ℕ) (output : List Bool) (capacity : ℕ) :
    List Bool × ℕ × ℕ :=
  if pattern.length = 0 then (output, 0, 0)
  else
    let r := punctureLoop pattern capacity 0 input output 0
    (r.1, r.2, input.length)

/-- Index of payload bit `i` after interleaving. -/
def interleaveIndex (i : ℕ) : ℕ := (45 * i + 92 * i * i) % 368

/-- `m17_interleave_368_bits` into a cleared buffer. -/
def interleave368Bits (input : List Bool) : List Bool :=
  scatter ((List.range 368).map fun i => (interleaveIndex i, input.getD i false))
    (List.replicate 368 false)

/-- `m17_deinterleave_368_bits`. -/
def deinterleave368Bits (input : List Bool) : List Bool :=
  (List.range 368).map fun i => input.getD (interleaveIndex i) false

/-- `m17_randomize_368_bits`. -/
def randomize368Bits (input : List Bool) : List Bool :=
  (List.range 368).map fun i => input.getD i false ^^ scramble.getD i 0 == 1

/-- `m17_payload_encode_bits`. -/
def payloadEncodeBits (decoded : List Bool) : List Bool :=
  randomize368Bits (interleave368Bits decoded)

/-- `m17_payload_decode_bits`. -/
def payloadDecodeBits (randomized : List Bool) : List Bool :=
  deinterleave368Bits (randomize368Bits randomized)

/-- `m17_lsf_encode_type1_bits`: randomized bits, bits stored and bits consumed. -/
def lsfEncodeType1Bits (type1Flush : List Bool) : List Bool × ℕ × ℕ :=
  let encoded := convolutionEncodeBits type1Flush
  let (punctured, out, consumed) :=
    punctureBits encoded puncturePattern1 (List.replicate 368 false) 368
  (payloadEncodeBits punctured, out, consumed)

/-- `m17_stream_build_type1_bits`. -/
def streamBuildType1Bits (frameNumber : ℕ) (payload : List Bool) : List Bool :=
  ((List.range 16).map fun i => frameNumber.testBit (15 - i)) ++
    ((List.range 128).map fun i => payload.getD i false) ++ List.replicate 4 false

/-- `m17_stream_parse_type1_bits`: frame number and payload. -/
def streamParseType1Bits (type1 : List Bool) : ℕ × List Bool :=
  ((List.range 16).foldl (fun fn i => (fn <<< 1 ||| (type1.getD i false).toNat) % 2 ^ 16) 0,
    (List.range 128).map fun i => type1.getD (16 + i) false)

/-- `m17_stream_encode_type1_bits` into a buffer of 272 bits. -/
def streamEncodeType1Bits (type1Flush : List Bool) : List Bool :=
  (punctureBits (convolutionEncodeBits type1Flush) puncturePattern2
    (List.replicate 272 false) 272).1

/-- `m17_bert_encode_type1_bits`: randomized bits, bits stored and bits consumed. -/
def bertEncodeType1Bits (type1Flush : List Bool) : List Bool × ℕ × ℕ :=
  let encoded := convolutionEncodeBits type1Flush
  let (punctured, out, consumed) :=
    punctureBits encoded puncturePattern2 (List.replicate 368 false) 368
  (payloadEncodeBits punctured, out, consumed)

/-- The loop of `m17_soft_depuncture_p1` with `n` positions left. -/
def softDepunctureP1Loop (soft : List ℕ) : ℕ → ℕ → ℕ → List ℕ
  | _, _, 0 => []
  | i, bitIndex, n + 1 =>
    if puncturePattern1.getD (i % 61) 0 = 1 then
      soft.getD bitIndex 0 :: softDepunctureP1Loop soft (i + 1) (bitIndex + 1) n
    else 0x7FFF :: softDepunctureP1Loop soft (i + 1) bitIndex n

/-- `m17_soft_depuncture_p1`. -/
def softDepunctureP1 (soft : List ℕ) : List ℕ := softDepunctureP1Loop soft 0 0 488

/-- The loop of `m17_depuncture_p2_hard` with `n` positions left. -/
def depunctureP2HardLoop (punctured : List Bool) : ℕ → ℕ → ℕ → List Bool
  | _, _, 0 => []
  | i, bitIn, n + 1 =>
    if puncturePattern2.getD (i % 12) 0 = 1 ∧ bitIn < 368 then
      punctured.getD bitIn false :: depunctureP2HardLoop punctured (i + 1) (bitIn + 1) n
    else false :: depunctureP2HardLoop punctured (i + 1) bitIn n

/-- `m17_depuncture_p2_hard`. -/
def depunctureP2Hard (punctured : List Bool) (depuncBits : ℕ) : List Bool :=
  depunctureP2HardLoop punctured 0 0 depuncBits

/-- The depuncturing of `M17prepareStream`: 25 rounds of eleven bits and a zero,
from the 272 stream bits of the frame and three zeros. -/
def streamDepuncture (m17Bits : List Bool) : List Bool :=
  let punc := ((List.range 272).map fun i => m17Bits.getD (i + 96) false) ++ List.replicate 3 false
  (List.range 25).flatMap fun i =>
    ((List.range 11).map fun k => punc.getD (11 * i + k) false) ++ [false]

theorem interleaveIndex_lt (i : ℕ) : interleaveIndex i < 368 := Nat.mod_lt _ (by decide)

set_option maxRecDepth 8000 in
/-- The interleaver is undone on the payload by a second quadratic map. -/
private theorem interleaveIndex_inverse : ∀ i, i < 368 →
    229 * (interleaveIndex i + 276 * (interleaveIndex i % 2)) % 368 = i := by
  decide

theorem nodup_interleaveIndex : ((List.range 368).map interleaveIndex).Nodup := by
  refine nodup_range.map_on ?_
  intro i hi j hj h
  rw [← interleaveIndex_inverse i (mem_range.mp hi),
    ← interleaveIndex_inverse j (mem_range.mp hj), h]

theorem length_interleave368Bits (bits : List Bool) : (interleave368Bits bits).length = 368 := by
  rw [interleave368Bits, length_scatter, length_replicate]

variable {bits : List Bool}

theorem deinterleave_interleave (h : bits.length = 368) :
    deinterleave368Bits (interleave368Bits bits) = bits := by
  apply ext_getElem?
  intro i
  by_cases hi : i < 368
  · have hstore : (interleave368Bits bits)[interleaveIndex i]? = some (bits.getD i false) := by
      refine getElem?_scatter ?_ ?_ (by rw [length_replicate]; exact interleaveIndex_lt i)
      · rw [map_map]
        exact nodup_interleaveIndex
      · exact mem_map.mpr ⟨i, mem_range.mpr hi, rfl⟩
    simp only [deinterleave368Bits, getElem?_map, getElem?_range hi, Option.map_some,
      getD_eq_getElem?_getD, hstore, Option.getD_some,
      getElem?_eq_getElem (show i < bits.length by omega)]
  · rw [getElem?_eq_none (by simp [deinterleave368Bits]; omega), getElem?_eq_none (by omega)]

theorem randomize_randomize (h : bits.length = 368) :
    randomize368Bits (randomize368Bits bits) = bits := by
  apply ext_getElem?
  intro i
  by_cases hi : i < 368
  · simp only [randomize368Bits, getElem?_map, getElem?_range hi, Option.map_some,
      getD_eq_getElem?_getD, Option.getD_some,
      getElem?_eq_getElem (show i < bits.length by omega), Bool.xor_assoc, Bool.xor_self,
      Bool.xor_false]
  · rw [getElem?_eq_none (by simp [randomize368Bits]; omega), getElem?_eq_none (by omega)]

theorem payloadDecode_payloadEncode (h : bits.length = 368) :
    payloadDecodeBits (payloadEncodeBits bits) = bits := by
  rw [payloadDecodeBits, payloadEncodeBits,
    randomize_randomize (length_interleave368Bits bits), deinterleave_interleave h]

/-- State of the code for the delay line of the encoder. -/
def delayLine (d1 d2 d3 d4 : Bool) : Fin 16 :=
  ⟨d1.toNat + 2 * d2.toNat + 4 * d3.toNat + 8 * d4.toNat, by
    cases d1 <;> cases d2 <;> cases d3 <;> cases d4 <;> decide⟩

private theorem delayLine_step (d d1 d2 d3 d4 : Bool) :
    codedBits (delayLine d1 d2 d3 d4) d = [d ^^ d3 ^^ d4, d ^^ d1 ^^ d2 ^^ d4] ∧
      nextState (delayLine d1 d2 d3 d4) d = delayLine d d1 d2 d3 := by
  revert d d1 d2 d3 d4
  decide

theorem convolutionEncodeLoop_eq (input : List Bool) (d1 d2 d3 d4 : Bool) :
    convolutionEncodeLoop input d1 d2 d3 d4 = codedStream (delayLine d1 d2 d3 d4) input := by
  induction input generalizing d1 d2 d3 d4 with
  | nil => rfl
  | cons d input ih =>
    obtain ⟨hbits, hnext⟩ := delayLine_step d d1 d2 d3 d4
    rw [convolutionEncodeLoop, codedStream_cons, hbits, hnext, ih]
    rfl

theorem convolutionEncodeBits_eq (input : List Bool) :
    convolutionEncodeBits input = codedStream 0 input :=
  convolutionEncodeLoop_eq input false false false false

/-- Positions a pattern keeps. -/
def keeps (pattern : List ℕ) (i : ℕ) : Bool := pattern.getD (i % pattern.length) 0 != 0

/-- The puncturing loop appends the kept bits to those already stored. -/
theorem punctureLoop_eq (pattern : List ℕ) {capacity i out : ℕ} (input : List Bool)
    {output : List Bool} (hcap : capacity ≤ output.length) (hout : out ≤ capacity) :
    ∃ rest, (punctureLoop pattern capacity i input output out).1 =
      output.take out ++ (select (kept (keeps pattern) (capacity - out) i input.length) input ++
        rest) := by
  induction input generalizing i output out with
  | nil => exact ⟨output.drop out, by simp [punctureLoop, select, kept]⟩
  | cons b input ih =>
    rw [punctureLoop, length_cons, kept]
    by_cases hkeep : pattern.getD (i % pattern.length) 0 ≠ 0 ∧ out < capacity
    · obtain ⟨hpat, hroom⟩ := hkeep
      have hmask : (keeps pattern i && Nat.ble 1 (capacity - out)) = true := by
        simp only [keeps, Bool.and_eq_true, bne_iff_ne]
        exact ⟨hpat, Nat.ble_eq_true_of_le (by omega)⟩
      obtain ⟨rest, hrest⟩ := ih (i := i + 1)
        (show capacity ≤ (output.set out b).length by simpa using hcap)
        (show out + 1 ≤ capacity by omega)
      refine ⟨rest, ?_⟩
      have htake : (output.set out b).take (out + 1) = output.take out ++ [b] := by
        rw [take_add_one, take_set_of_le le_rfl, getElem?_set_self (by omega)]
        rfl
      rw [if_pos ⟨hpat, hroom⟩, hrest, hmask, cond_true, select, htake, Nat.sub_sub]
      simp
    · have hmask : (keeps pattern i && Nat.ble 1 (capacity - out)) = false := by
        rw [Bool.and_eq_false_iff]
        by_cases hpat : pattern.getD (i % pattern.length) 0 ≠ 0
        · have hfull : ¬ 1 ≤ capacity - out := by
            have : ¬ out < capacity := fun h => hkeep ⟨hpat, h⟩
            omega
          exact Or.inr (Bool.eq_false_iff.mpr fun h => hfull (Nat.le_of_ble_eq_true h))
        · exact Or.inl (by simpa [keeps] using hpat)
      obtain ⟨rest, hrest⟩ := ih (i := i + 1) hcap hout
      exact ⟨rest, by rw [if_neg hkeep, hrest, hmask, cond_false, select]⟩

theorem length_punctureLoop (pattern : List ℕ) (capacity i out : ℕ) (input output : List Bool) :
    (punctureLoop pattern capacity i input output out).1.length = output.length := by
  fun_induction punctureLoop pattern capacity i input output out <;> simp_all

theorem punctureBits_eq {pattern : List ℕ} (hpattern : pattern.length ≠ 0) (input : List Bool)
    (capacity : ℕ) :
    (punctureBits input pattern (List.replicate capacity false) capacity).1.length = capacity ∧
      ∃ rest, (punctureBits input pattern (List.replicate capacity false) capacity).1 =
        select (kept (keeps pattern) capacity 0 input.length) input ++ rest := by
  rw [punctureBits, if_neg hpattern]
  refine ⟨by simp [length_punctureLoop], ?_⟩
  obtain ⟨rest, hrest⟩ := punctureLoop_eq pattern (i := 0) input
    (show capacity ≤ (List.replicate capacity false).length by simp) (Nat.zero_le capacity)
  exact ⟨rest, by simpa using hrest⟩

private theorem pattern1_entry : ∀ j, j < 61 →
    (puncturePattern1.getD j 0 = 1 ↔ puncturePattern1.getD j 0 ≠ 0) := by
  decide

private theorem pattern2_entry : ∀ j, j < 12 →
    (puncturePattern2.getD j 0 = 1 ↔ puncturePattern2.getD j 0 ≠ 0) := by
  decide

theorem keeps_pattern1 (i : ℕ) :
    keeps puncturePattern1 i = true ↔ puncturePattern1.getD (i % 61) 0 = 1 := by
  rw [pattern1_entry _ (Nat.mod_lt _ (by decide)), keeps, bne_iff_ne]
  rfl

theorem keeps_pattern2 (i : ℕ) :
    keeps puncturePattern2 i = true ↔ puncturePattern2.getD (i % 12) 0 = 1 := by
  rw [pattern2_entry _ (Nat.mod_lt _ (by decide)), keeps, bne_iff_ne]
  rfl

theorem depunctureP2HardLoop_eq (punctured : List Bool) (i bitIn n : ℕ) :
    depunctureP2HardLoop punctured i bitIn n =
      expand false (kept (keeps puncturePattern2) (368 - bitIn) i n) (punctured.drop bitIn) := by
  induction n generalizing i bitIn with
  | zero => rfl
  | succ n ih =>
    rw [depunctureP2HardLoop, kept]
    by_cases hkeep : puncturePattern2.getD (i % 12) 0 = 1 ∧ bitIn < 368
    · have hmask : (keeps puncturePattern2 i && Nat.ble 1 (368 - bitIn)) = true :=
        Bool.and_eq_true_iff.mpr
          ⟨(keeps_pattern2 i).mpr hkeep.1, Nat.ble_eq_true_of_le (by omega)⟩
      rw [if_pos hkeep, hmask, cond_true, ih, Nat.sub_sub]
      rcases hdrop : punctured.drop bitIn with _ | ⟨y, ys⟩
      · have hlen := drop_eq_nil_iff.mp hdrop
        rw [expand, getD_eq_getElem?_getD, getElem?_eq_none hlen, drop_eq_nil_iff.mpr (by omega)]
        rfl
      · have hget : punctured[bitIn]? = some y := by
          rw [← head?_drop, hdrop]
          rfl
        rw [expand, getD_eq_getElem?_getD, hget, Option.getD_some, ← drop_drop, hdrop]
        rfl
    · have hmask : (keeps puncturePattern2 i && Nat.ble 1 (368 - bitIn)) = false := by
        refine Bool.eq_false_iff.mpr fun h => hkeep ?_
        obtain ⟨hk, hroom⟩ := Bool.and_eq_true_iff.mp h
        exact ⟨(keeps_pattern2 i).mp hk, by have := Nat.le_of_ble_eq_true hroom; omega⟩
      rw [if_neg hkeep, hmask, cond_false, ih, expand]

/-- The soft depuncturer puts the kept values back over `0x7FFF`, as long as the
pattern keeps no more positions than there are values. -/
theorem softDepunctureP1Loop_eq (soft : List ℕ) {i bitIndex n : ℕ}
    (h : bitIndex + (List.range' i n).countP (keeps puncturePattern1) ≤ soft.length) :
    softDepunctureP1Loop soft i bitIndex n =
      expand 0x7FFF (kept (keeps puncturePattern1) (soft.length - bitIndex) i n)
        (soft.drop bitIndex) := by
  induction n generalizing i bitIndex with
  | zero => rfl
  | succ n ih =>
    rw [softDepunctureP1Loop, kept]
    rw [range'_succ, countP_cons] at h
    by_cases hkeep : puncturePattern1.getD (i % 61) 0 = 1
    · have hk := (keeps_pattern1 i).mpr hkeep
      rw [if_pos hk] at h
      have hmask : (keeps puncturePattern1 i && Nat.ble 1 (soft.length - bitIndex)) = true :=
        Bool.and_eq_true_iff.mpr ⟨hk, Nat.ble_eq_true_of_le (by omega)⟩
      rw [if_pos hkeep, hmask, cond_true, ih (by omega), Nat.sub_sub,
        drop_eq_getElem_cons (show bitIndex < soft.length by omega), expand,
        getD_eq_getElem?_getD, getElem?_eq_getElem, Option.getD_some]
    · have hk : keeps puncturePattern1 i = false :=
        Bool.eq_false_iff.mpr fun hk => hkeep ((keeps_pattern1 i).mp hk)
      rw [if_neg (by simp [hk])] at h
      rw [if_neg hkeep, hk, Bool.false_and, cond_false, ih (by omega), expand]

/-- Source index of each position that `M17prepareStream` fills. -/
private def streamIndices : List (Option ℕ) :=
  (List.range 25).flatMap fun i =>
    ((List.range 11).map fun k => if 11 * i + k < 272 then some (11 * i + k) else none) ++ [none]

set_option maxRecDepth 8000 in
private theorem streamIndices_eq :
    streamIndices.take 296 =
      expand none (kept (keeps puncturePattern2) 272 0 296) ((List.range 272).map some) := by
  decide

theorem streamDepuncture_eq {lich punctured : List Bool} (hlich : lich.length = 96)
    (hlen : punctured.length = 272) :
    (streamDepuncture (lich ++ punctured)).take 296 =
      expand false (kept (keeps puncturePattern2) 272 0 296) punctured := by
  let bit : Option ℕ → Bool := fun k => k.elim false (punctured.getD · false)
  have hpunc : ((List.range 272).map some).map bit = punctured := by
    apply ext_getElem?
    intro i
    by_cases hi : i < 272
    · simp [bit, hi, getD_eq_getElem?_getD, getElem?_eq_getElem (hlen.symm ▸ hi)]
    · rw [getElem?_eq_none (by simp; omega), getElem?_eq_none (by omega)]
  have hmap : streamDepuncture (lich ++ punctured) = streamIndices.map bit := by
    rw [streamDepuncture, streamIndices, map_flatMap]
    refine congrArg (List.range 25).flatMap (funext fun i => ?_)
    rw [map_append, map_map]
    refine congrArg (· ++ [false]) (map_congr_left fun k _ => ?_)
    by_cases hk : 11 * i + k < 272
    · simp [bit, hk, getD_eq_getElem?_getD, getElem?_append, hlich]
    · simp [-List.reduceReplicate, bit, hk, getD_eq_getElem?_getD, getElem?_append,
        getElem?_replicate]
      split <;> rfl
  rw [hmap, ← map_take, streamIndices_eq, map_expand, hpunc]
  rfl

end DsdNeo.M17
