import DsdNeo.Core.Bits.Reorder
import DsdNeo.Models.Tetra.Simd

/-!
# Channel coding of signalling blocks

`tetra_fec.c`: rate-compatible puncturing, block interleaving, scrambling, the
checksum, and the decoding of one random access block. Bit buffers hold a byte
for each bit and soft buffers a 16-bit cost, zero for a certain zero bit.
-/

namespace DsdNeo.Tetra

open Reorder List

/-- `TETRA_SOFT_NEUTRAL`. -/
def softNeutral : BitVec 16 := 0x7FFF

/-- `TETRA_CRC16_OK`. -/
def crc16Ok : BitVec 16 := 0x1D0F

/-- A bit in a byte of its own. -/
def bitByte (b : Bool) : BitVec 8 := bif b then 1 else 0

/-- `tetra_punct_i`. -/
inductive PunctI where
  | equalsJ
  | skip65
  | skip35
  deriving DecidableEq, Repr

/-- `tetra_puncturer`. -/
structure Puncturer where
  p : List ℕ
  t : ℕ
  period : ℕ
  iRule : PunctI

/-- `k_puncturers`, indexed by `TETRA_RCPC_PUNCT_*`. -/
def puncturers : List Puncturer :=
  let p23 := [1, 2, 5]
  let p13 := [1, 2, 3, 5, 6, 7]
  let p812 := [1, 2, 4]
  let p818 := [1, 2, 3, 4, 5, 7, 8, 10, 11]
  let p817 := [1, 2, 3, 4, 5, 7, 8, 10, 11, 13, 14, 16, 17, 19, 20, 22, 23]
  [⟨p23, 3, 8, .equalsJ⟩, ⟨p13, 6, 8, .equalsJ⟩, ⟨p23, 3, 8, .skip65⟩, ⟨p13, 6, 8, .skip35⟩,
    ⟨p812, 3, 6, .equalsJ⟩, ⟨p818, 9, 12, .equalsJ⟩, ⟨p817, 17, 24, .equalsJ⟩]

/-- `TETRA_RCPC_PUNCT_2_3`. -/
def rcpcPunct23 : ℕ := 0

/-- `tetra_puncturer_k`: the mother-code position, from one, of type-3 bit `j`, in 32 bits. -/
def puncturerK (p : Puncturer) (j : ℕ) : ℕ :=
  if j = 0 then 0
  else
    let i := match p.iRule with
      | .equalsJ => j
      | .skip65 => (j + (j - 1) / 65) % 2 ^ 32
      | .skip35 => (j + (j - 1) / 35) % 2 ^ 32
    let block := (i - 1) / p.t
    (p.period * block + p.p.getD (i - 1 - p.t * block) 0) % 2 ^ 32

/-- `tetra_rcpc_map_j_to_k`. -/
def rcpcMapJToK (punctId : ℕ) (j : ℕ) : ℤ :=
  match puncturers[punctId]? with
  | none => -1
  | some p => if j = 0 ∨ j > 0xFFFFFF then -1 else puncturerK p j

/-- `tetra_rcpc_depuncture_by_id`: neutral costs, then each input at its position. -/
def rcpcDepunctureById (punctId : ℕ) (inCosts : List (BitVec 16)) (outLen : ℕ) :
    Option (List (BitVec 16)) :=
  (puncturers[punctId]?).map fun p =>
    scatter (((List.range inCosts.length).map fun j =>
        (puncturerK p (j + 1), inCosts.getD j 0)).filterMap fun w =>
      if 1 ≤ w.1 ∧ w.1 ≤ outLen then some (w.1 - 1, w.2) else none)
      (List.replicate outLen softNeutral)

/-- `tetra_rcpc_puncture_by_id`: a position beyond the mother word reads as `0xFF`. -/
def rcpcPunctureById (punctId : ℕ) (mother : List (BitVec 8)) (outLen : ℕ) :
    Option (List (BitVec 8)) :=
  (puncturers[punctId]?).map fun p =>
    (List.range outLen).map fun j =>
      let k := puncturerK p (j + 1)
      if 1 ≤ k ∧ k ≤ mother.length then mother.getD (k - 1) 0xFF else 0xFF

/-- `tetra_block_interleave` of `len` bits into a buffer. -/
def blockInterleave (inBits out : List (BitVec 8)) (len a : ℕ) : List (BitVec 8) :=
  scatter ((List.range len).map fun i => (a * (i + 1) % len, inBits.getD i 0)) out

/-- `tetra_block_deinterleave_soft`. -/
def blockDeinterleaveSoft (inCosts : List (BitVec 16)) (len a : ℕ) : List (BitVec 16) :=
  (List.range len).map fun i => inCosts.getD (a * (i + 1) % len) 0

/-- Taps of the scrambling generator. -/
def lfsrTaps : List ℕ := [0, 6, 9, 10, 16, 20, 21, 22, 24, 25, 27, 28, 30, 31]

/-- `tetra_lfsr32_next`: the output bit and the register after it. -/
def lfsr32Next (s : BitVec 32) : Bool × BitVec 32 :=
  let bit := lfsrTaps.foldl (fun b k => b ^^ s.getLsbD k) false
  (bit, (s >>> 1) ||| (BitVec.ofBool bit).setWidth 32 <<< 31)

/-- Outputs of the generator, one for each of `n` bits. -/
def lfsrSequence : ℕ → BitVec 32 → List Bool
  | 0, _ => []
  | n + 1, s => (lfsr32Next s).1 :: lfsrSequence n (lfsr32Next s).2

/-- The register a seed starts: an all-zero one never leaves zero. -/
def lfsrStart (lfsrInit : BitVec 32) : BitVec 32 := if lfsrInit ≠ 0 then lfsrInit else 3

/-- The loop of `tetra_descramble_soft`. -/
def descrambleLoop : List (BitVec 16) → BitVec 32 → List (BitVec 16)
  | [], _ => []
  | c :: costs, s =>
    (if (lfsr32Next s).1 ∧ c ≠ softNeutral then 0xFFFF ^^^ c else c) ::
      descrambleLoop costs (lfsr32Next s).2

/-- `tetra_descramble_soft`. -/
def descrambleSoft (costs : List (BitVec 16)) (lfsrInit : BitVec 32) : List (BitVec 16) :=
  descrambleLoop costs (lfsrStart lfsrInit)

/-- `tetra_hard_bits_to_soft`. -/
def hardBitsToSoft (bits : List (BitVec 8)) : List (BitVec 16) :=
  bits.map fun b => if b &&& 1 ≠ 0 then 0xFFFF else 0x0000

/-- One bit of `tetra_crc16_ccitt_bits`. -/
def crcStep (crc : BitVec 16) (bit : BitVec 8) : BitVec 16 :=
  let crc := crc ^^^ ((bit &&& 1).setWidth 16 <<< 15)
  if crc &&& 0x8000 ≠ 0 then (crc <<< 1) ^^^ 0x1021 else crc <<< 1

/-- `tetra_crc16_ccitt_bits`. -/
def crc16CcittBits (bits : List (BitVec 8)) : BitVec 16 := bits.foldl crcStep 0xFFFF

/-- `parity5`. -/
def parity5 (value : BitVec 8) : BitVec 8 :=
  let value := value ^^^ (value >>> 4)
  let value := value ^^^ (value >>> 2)
  let value := value ^^^ (value >>> 1)
  value &&& 1

/-- `conv_next_state`. -/
def convNextState (code : ConvCode) (state bit : ℕ) : ℕ :=
  if code.shiftUp then ((state <<< 1) &&& 0xE) ||| bit else (bit <<< 3) ||| (state >>> 1)

/-- `conv_input_of`. -/
def convInputOf (code : ConvCode) (nextState : ℕ) : ℕ :=
  if code.shiftUp then nextState &&& 1 else nextState >>> 3

/-- The loop of `conv_encode`. -/
def convEncodeLoop (code : ConvCode) : List (BitVec 8) → ℕ → List (BitVec 8)
  | [], _ => []
  | b :: bits, state =>
    let bit := (b &&& 1).toNat
    let involved := (bit <<< 4) ||| state
    ((List.range code.lanes).map fun lane =>
      parity5 (BitVec.ofNat 8 (involved &&& code.taps.getD lane 0))) ++
      convEncodeLoop code bits (convNextState code state bit)

/-- `conv_encode`. -/
def convEncode (code : ConvCode) (bits : List (BitVec 8)) : List (BitVec 8) :=
  convEncodeLoop code bits 0

/-- The kernel a build selects. -/
inductive Kernel where
  | scalar
  | sse2
  deriving DecidableEq, Repr

/-- `conv_acs_run`: the vector kernel where the build has one and the code its shape. -/
def convAcsRun (kernel : Kernel) (code : ConvCode) (nsteps : ℕ) (metric : Metrics)
    (costs : List (BitVec 16)) : Metrics × List Row :=
  match kernel with
  | .scalar => convAcsRunScalar code nsteps metric costs
  | .sse2 =>
    if (code.lanes = 4 ∧ code.shiftUp) ∨ (code.lanes = 3 ∧ ¬ code.shiftUp) then
      convAcsRunSimd code nsteps metric costs
    else convAcsRunScalar code nsteps metric costs

/-- The loop of `conv_viterbi` that follows the predecessors, latest row first. -/
def convChainback (code : ConvCode) : List Row → ℕ → List (BitVec 8) → List (BitVec 8)
  | [], _, out => out
  | row :: rows, state, out =>
    convChainback code rows (row.toList.getD state 0).toNat
      (BitVec.ofNat 8 (convInputOf code state) :: out)

/-- The state a chainback starts from: the best one only where state 0 is unreachable. -/
def endState (metric : Metrics) : ℕ :=
  if metric.get 0 = inf then
    (List.range' 1 15).foldl
      (fun state candidate =>
        if metric.toList.getD candidate 0 < metric.toList.getD state 0 then candidate else state) 0
  else 0

/-- The metrics `conv_viterbi` starts from. -/
def startMetrics : Metrics := Vector.ofFn fun s : Fin 16 => if s = 0 then 0 else inf

/-- `conv_viterbi`. -/
def convViterbi (kernel : Kernel) (code : ConvCode) (costs : List (BitVec 16)) (nbits : ℕ) :
    List (BitVec 8) :=
  let r := convAcsRun kernel code nbits startMetrics costs
  convChainback code r.2.reverse (endState r.1) []

/-- `TETRA_VITERBI_MAX_BITS`. -/
def viterbiMaxBits : ℕ := 512

/-- `tetra_viterbi_decode_soft` into a buffer of `outBitsLen` bytes. -/
def viterbiDecodeSoft (kernel : Kernel) (depunc : List (BitVec 16)) (outBitsLen : ℕ) :
    Option (List (BitVec 8)) :=
  if depunc.length = 0 ∨ depunc.length % 4 ≠ 0 then none
  else
    let nbits := depunc.length / 4
    if nbits > viterbiMaxBits ∨ outBitsLen < nbits then none
    else some (convViterbi kernel signallingCode depunc nbits)

/-- `tetra_sch_hu_decode`: the 92 MAC bits, or nothing where it returns zero. -/
def schHuDecode (kernel : Kernel) (type4 : List (BitVec 16)) : Option (List (BitVec 8)) := do
  let deint := blockDeinterleaveSoft type4 168 13
  let depunc ← rcpcDepunctureById rcpcPunct23 deint (112 * 4)
  let decoded ← viterbiDecodeSoft kernel depunc 112
  if decoded.length < 112 ∨ crc16CcittBits (decoded.take 108) ≠ crc16Ok then none
  else some (decoded.take 92)

/-!
# Puncturing and depuncturing

A sent bit is at a mother position that grows with its number, whichever scheme is in use: the
numbers grow through the skips, and a scheme's positions grow within a block and from block to
block. What a depuncturer stores therefore returns to the position it was taken from, and every
other position stays neutral.
-/

/-- What makes the positions of a scheme grow: a full table whose entries grow, all of them within
one period of the first of the next block. -/
def Puncturer.Ordered (p : Puncturer) : Prop :=
  0 < p.t ∧ p.period ≤ 24 ∧
    (∀ i, i < p.t → 1 ≤ p.p.getD i 0 ∧ p.p.getD i 0 ≤ p.period) ∧
    ∀ i, i < p.t - 1 → p.p.getD i 0 < p.p.getD (i + 1) 0

instance (p : Puncturer) : Decidable p.Ordered := inferInstanceAs (Decidable (_ ∧ _ ∧ _ ∧ _))

/-- Every scheme is ordered. -/
theorem ordered_puncturers : ∀ p ∈ puncturers, p.Ordered := by
  decide

/-- The position of number `n` of a scheme, from zero, without a width. -/
def positionOf (p : Puncturer) (n : ℕ) : ℕ := p.period * (n / p.t) + p.p.getD (n % p.t) 0

/-- The number of sent bit `n`, from zero, after the skips. -/
def numberOf (rule : PunctI) (n : ℕ) : ℕ :=
  match rule with
  | .equalsJ => n
  | .skip65 => n + n / 65
  | .skip35 => n + n / 35

theorem numberOf_lt (rule : PunctI) (n : ℕ) : numberOf rule n < numberOf rule (n + 1) := by
  cases rule with
  | equalsJ => exact Nat.lt_succ_self n
  | skip65 =>
    have hdiv : n / 65 ≤ (n + 1) / 65 := Nat.div_le_div_right (Nat.le_succ n)
    simp only [numberOf]
    omega
  | skip35 =>
    have hdiv : n / 35 ≤ (n + 1) / 35 := Nat.div_le_div_right (Nat.le_succ n)
    simp only [numberOf]
    omega

theorem numberOf_le (rule : PunctI) (n : ℕ) : numberOf rule n ≤ 2 * n := by
  cases rule with
  | equalsJ => simp only [numberOf]; omega
  | skip65 => simp only [numberOf]; omega
  | skip35 => simp only [numberOf]; omega

variable {p : Puncturer}

/-- One number further is a later position: in the same block by the table, in the next block by
the period. -/
theorem positionOf_lt_succ (h : p.Ordered) (n : ℕ) : positionOf p n < positionOf p (n + 1) := by
  obtain ⟨ht, -, hrange, hgrow⟩ := h
  have hmod := Nat.mod_lt n ht
  by_cases hlast : n % p.t + 1 < p.t
  · have hdiv : (n + 1) / p.t = n / p.t := by
      rw [Nat.succ_div_of_not_dvd]
      intro hdvd
      rw [Nat.dvd_iff_mod_eq_zero, Nat.add_mod, Nat.mod_eq_of_lt (show 1 < p.t by omega),
        Nat.mod_eq_of_lt hlast] at hdvd
      omega
    have hnext : (n + 1) % p.t = n % p.t + 1 := by
      rw [Nat.add_mod, Nat.mod_eq_of_lt (show 1 < p.t by omega), Nat.mod_eq_of_lt hlast]
    rw [positionOf, positionOf, hdiv, hnext]
    exact Nat.add_lt_add_left (hgrow _ (by omega)) _
  · have hfull : p.t ∣ n + 1 := by
      refine ⟨n / p.t + 1, ?_⟩
      have hn := Nat.div_add_mod n p.t
      rw [Nat.mul_succ]
      omega
    have hdiv : (n + 1) / p.t = n / p.t + 1 := Nat.succ_div_of_dvd hfull
    have hnext : (n + 1) % p.t = 0 := Nat.mod_eq_zero_of_dvd hfull
    have hthis := (hrange _ hmod).2
    have hfirst := (hrange 0 ht).1
    rw [positionOf, positionOf, hdiv, hnext, Nat.mul_succ]
    omega

theorem positionOf_strictMono (h : p.Ordered) : StrictMono (positionOf p) :=
  strictMono_nat_of_lt_succ (positionOf_lt_succ h)

theorem positionOf_le (h : p.Ordered) (n : ℕ) : positionOf p n ≤ 24 * n + 24 := by
  obtain ⟨ht, hperiod, hrange, -⟩ := h
  have hentry := (hrange _ (Nat.mod_lt n ht)).2
  have hblock : p.period * (n / p.t) ≤ 24 * n :=
    Nat.mul_le_mul hperiod (Nat.div_le_self n p.t)
  rw [positionOf]
  omega

/-- Up to the largest number of the map nothing wraps. -/
theorem puncturerK_eq (h : p.Ordered) {j : ℕ} (hj : j < 0xFFFFFF) :
    puncturerK p (j + 1) = positionOf p (numberOf p.iRule j) := by
  have hnumber := numberOf_le p.iRule j
  have hsmall := positionOf_le h (numberOf p.iRule j)
  have hmod : numberOf p.iRule j - p.t * (numberOf p.iRule j / p.t) =
      numberOf p.iRule j % p.t := by
    have := Nat.div_add_mod (numberOf p.iRule j) p.t
    omega
  have hwidth : (positionOf p (numberOf p.iRule j)) % 2 ^ 32 = positionOf p (numberOf p.iRule j) :=
    Nat.mod_eq_of_lt (by omega)
  rw [← hwidth, positionOf, ← hmod, puncturerK, if_neg (Nat.succ_ne_zero j)]
  cases hrule : p.iRule with
  | equalsJ => rfl
  | skip65 =>
    have hi : (j + 1 + (j + 1 - 1) / 65) % 2 ^ 32 = numberOf .skip65 j + 1 := by
      simp only [numberOf]
      omega
    dsimp only
    rw [hi, Nat.add_sub_cancel]
  | skip35 =>
    have hi : (j + 1 + (j + 1 - 1) / 35) % 2 ^ 32 = numberOf .skip35 j + 1 := by
      simp only [numberOf]
      omega
    dsimp only
    rw [hi, Nat.add_sub_cancel]

theorem puncturerK_lt_succ (h : p.Ordered) {j : ℕ} (hpos : 1 ≤ j) (hj : j + 1 ≤ 0xFFFFFF) :
    puncturerK p j < puncturerK p (j + 1) := by
  obtain ⟨n, rfl⟩ : ∃ n, j = n + 1 := ⟨j - 1, by omega⟩
  rw [puncturerK_eq h (by omega), puncturerK_eq h (by omega)]
  exact positionOf_strictMono h (numberOf_lt p.iRule n)

/-- The mother positions, from zero, that `n` sent bits are taken from or stored at. -/
def Sends (p : Puncturer) (n k : ℕ) : Prop := ∃ j, 1 ≤ j ∧ j ≤ n ∧ puncturerK p j = k + 1

theorem getElem?_rcpcPuncture {punctId : ℕ} (hp : puncturers[punctId]? = some p)
    {mother : List (BitVec 8)} {outLen : ℕ} {sent : List (BitVec 8)}
    (hsent : rcpcPunctureById punctId mother outLen = some sent) :
    sent.length = outLen ∧ ∀ j, j < outLen → 1 ≤ puncturerK p (j + 1) →
      puncturerK p (j + 1) ≤ mother.length → sent[j]? = mother[puncturerK p (j + 1) - 1]? := by
  rw [rcpcPunctureById, hp, Option.map_some, Option.some.injEq] at hsent
  subst hsent
  refine ⟨by simp, fun j hj hlow hhigh => ?_⟩
  rw [getElem?_map, getElem?_range hj, Option.map_some, if_pos ⟨hlow, hhigh⟩,
    getD_eq_getElem?_getD, getElem?_eq_getElem (by omega)]
  rfl

theorem getElem?_rcpcDepuncture {punctId : ℕ} (hp : puncturers[punctId]? = some p)
    {mother : List (BitVec 8)} {outLen : ℕ} {cost : BitVec 8 → BitVec 16} {sent : List (BitVec 8)}
    (hsent : rcpcPunctureById punctId mother outLen = some sent) {costs : List (BitVec 16)}
    (hcosts : rcpcDepunctureById punctId (sent.map cost) mother.length = some costs) {k : ℕ}
    {b : BitVec 8} (hb : mother[k]? = some b) :
    (Sends p outLen k → costs[k]? = some (cost b)) ∧
      (¬ Sends p outLen k → costs[k]? = some softNeutral) := by
  have hk : k < mother.length := (List.getElem?_eq_some_iff.mp hb).1
  have hroom : k < (List.replicate mother.length softNeutral).length := by
    rw [length_replicate]
    exact hk
  obtain ⟨hlen, htaken⟩ := getElem?_rcpcPuncture hp hsent
  rw [rcpcDepunctureById, hp, Option.map_some, Option.some.injEq] at hcosts
  subst hcosts
  -- a store at `k` comes from a sent bit whose position is `k`
  have hstored : ∀ w : ℕ × BitVec 16, w ∈ ((List.range (sent.map cost).length).map fun j =>
      (puncturerK p (j + 1), (sent.map cost).getD j 0)).filterMap (fun w =>
        if 1 ≤ w.1 ∧ w.1 ≤ mother.length then some (w.1 - 1, w.2) else none) → w.1 = k →
      ∃ j, j < outLen ∧ puncturerK p (j + 1) = k + 1 ∧ w.2 = (sent.map cost).getD j 0 := by
    intro w hw hwk
    obtain ⟨v, hv, hvw⟩ := mem_filterMap.mp hw
    obtain ⟨j, hj, rfl⟩ := mem_map.mp hv
    rw [mem_range, length_map, hlen] at hj
    split at hvw
    · rename_i hin
      cases hvw
      have hback : puncturerK p (j + 1) - 1 = k := hwk
      exact ⟨j, hj, by have := hin.1; omega, rfl⟩
    · cases hvw
  constructor
  · rintro ⟨j, hpos, hj, hmap⟩
    obtain ⟨n, rfl⟩ : ∃ n, j = n + 1 := ⟨j - 1, by omega⟩
    refine getElem?_scatter_of_agree ?_ (fun w hw hwk => ?_) hroom
    · refine mem_map.mpr ⟨(k, (sent.map cost).getD n 0), mem_filterMap.mpr
        ⟨(k + 1, (sent.map cost).getD n 0), mem_map.mpr ⟨n, ?_, by rw [hmap]⟩, ?_⟩, rfl⟩
      · rw [mem_range, length_map, hlen]
        exact hj
      · rw [if_pos ⟨Nat.succ_pos k, hk⟩]
        rfl
    · obtain ⟨i, hi, hik, hvalue⟩ := hstored w hw hwk
      rw [hvalue, getD_eq_getElem?_getD, getElem?_map, htaken i hi (by omega) (by omega),
        hik, Nat.add_sub_cancel, hb]
      rfl
  · intro hnot
    rw [getElem?_scatter_of_notMem, getElem?_replicate, if_pos hk]
    intro hmem
    obtain ⟨w, hw, hwk⟩ := mem_map.mp hmem
    obtain ⟨j, hj, hjk, -⟩ := hstored w hw hwk
    exact hnot ⟨j + 1, Nat.succ_pos j, hj, hjk⟩

/-- The map of every scheme is strictly increasing, and depuncturing the costs of what puncturing
kept puts the cost of every kept bit back at its own index and leaves the others neutral. -/
theorem rcpc_depuncture_undoes_puncture (punctId : ℕ) (p : Puncturer)
    (hp : puncturers[punctId]? = some p) :
    (∀ j, 1 ≤ j → j + 1 ≤ 0xFFFFFF → rcpcMapJToK punctId j < rcpcMapJToK punctId (j + 1)) ∧
      ∀ (mother : List (BitVec 8)) (outLen : ℕ) (cost : BitVec 8 → BitVec 16),
        ∃ sent costs, rcpcPunctureById punctId mother outLen = some sent ∧
          rcpcDepunctureById punctId (sent.map cost) mother.length = some costs ∧
          costs.length = mother.length ∧ ∀ k b, mother[k]? = some b →
            (Sends p outLen k → costs[k]? = some (cost b)) ∧
            (¬ Sends p outLen k → costs[k]? = some softNeutral) := by
  have hordered : p.Ordered := ordered_puncturers p (mem_of_getElem? hp)
  refine ⟨fun j hpos hj => ?_, fun mother outLen cost => ?_⟩
  · rw [rcpcMapJToK, rcpcMapJToK, hp]
    dsimp only
    rw [if_neg (by omega), if_neg (by omega)]
    exact Int.ofNat_lt.mpr (puncturerK_lt_succ hordered hpos hj)
  · obtain ⟨sent, hsent⟩ : ∃ sent, rcpcPunctureById punctId mother outLen = some sent :=
      ⟨_, by rw [rcpcPunctureById, hp]; rfl⟩
    obtain ⟨costs, hcosts⟩ : ∃ costs,
        rcpcDepunctureById punctId (sent.map cost) mother.length = some costs :=
      ⟨_, by rw [rcpcDepunctureById, hp]; rfl⟩
    refine ⟨sent, costs, hsent, hcosts, ?_, fun k b hb =>
      getElem?_rcpcDepuncture hp hsent hcosts hb⟩
    rw [rcpcDepunctureById, hp, Option.map_some, Option.some.injEq] at hcosts
    rw [← hcosts, length_scatter, length_replicate]

/-- The two-thirds scheme. -/
theorem rcpc_depuncture_undoes_puncture_two_thirds :
    (∀ j, 1 ≤ j → j + 1 ≤ 0xFFFFFF → rcpcMapJToK rcpcPunct23 j < rcpcMapJToK rcpcPunct23 (j + 1)) ∧
      ∀ (mother : List (BitVec 8)) (outLen : ℕ) (cost : BitVec 8 → BitVec 16),
        ∃ sent costs, rcpcPunctureById rcpcPunct23 mother outLen = some sent ∧
          rcpcDepunctureById rcpcPunct23 (sent.map cost) mother.length = some costs ∧
          costs.length = mother.length ∧ ∀ k b, mother[k]? = some b →
            (Sends ⟨[1, 2, 5], 3, 8, .equalsJ⟩ outLen k → costs[k]? = some (cost b)) ∧
            (¬ Sends ⟨[1, 2, 5], 3, 8, .equalsJ⟩ outLen k → costs[k]? = some softNeutral) :=
  rcpc_depuncture_undoes_puncture rcpcPunct23 ⟨[1, 2, 5], 3, 8, .equalsJ⟩ rfl

end DsdNeo.Tetra
