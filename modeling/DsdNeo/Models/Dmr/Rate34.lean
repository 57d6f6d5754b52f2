import DsdNeo.Core.Bits.Digits
import DsdNeo.Core.Bits.Weight
import DsdNeo.Core.Trellis.Scan
import DsdNeo.Models.Fec.Trellis34

/-!
# The rate 3/4 decoders and their metric

`dmr_34_viterbi.c` but for its list decoder. The hard and the soft decoder run the
same loops under different costs from state zero back to state zero. The metric of
a candidate is summed over the states unpacked from its bytes: three bits of the
word to a state, and state zero after the last.
-/

namespace DsdNeo.Dmr.Rate34

open Trellis Trellis34

/-- `R34_INF`. -/
abbrev inf : ℕ := 1000000000

/-- `r34_deinterleave_dibits`. -/
def deinterleaveDibits (dibits98 : Fin 98 → UInt8) : List ℕ :=
  deinterleave 0 fun i => (dibits98 i &&& 3).toNat

/-- `r34_pack_nibbles`. -/
def packNibbles (dibitsDei : List ℕ) : List ℕ :=
  (List.range 49).map fun i =>
    (dibitsDei.getD (i * 2) 0 &&& 3) <<< 2 ||| (dibitsDei.getD (i * 2 + 1) 0 &&& 3)

/-- `r34_prepare_nibbles`. -/
def prepareNibbles (dibits98 : Fin 98 → UInt8) : List ℕ := packNibbles (deinterleaveDibits dibits98)

/-- `r34_map_nibbles_to_points`. -/
def mapNibblesToPoints (nibs : List ℕ) : List ℕ :=
  nibs.map fun nib => constellation.getD (nib &&& 0x0F) 0

/-- `r34_deinterleave_reliability` and `r34_split_reliability`. -/
def splitReliability (reliab98 : Fin 98 → UInt8) : List ℕ × List ℕ :=
  let dei := deinterleave 0 fun i => (reliab98 i).toNat
  ((List.range 49).map fun i => dei.getD (i * 2) 0,
    (List.range 49).map fun i => dei.getD (i * 2 + 1) 0)

/-- `r34_prepare_reliability_weights`, weighted where there are reliabilities. -/
def prepareReliabilityWeights : Option (Fin 98 → UInt8) → List ℕ × List ℕ
  | some reliab98 => splitReliability reliab98
  | none => (List.replicate 49 1, List.replicate 49 1)

/-- `r34_weighted_nibble_cost`. -/
def weightedNibbleCost (expectNib obsNib rhi rlo : ℕ) : ℕ :=
  let x := expectNib ^^^ obsNib
  (if x &&& 0x8 ≠ 0 then rhi else 0) + (if x &&& 0x4 ≠ 0 then rhi else 0) +
    (if x &&& 0x2 ≠ 0 then rlo else 0) + (if x &&& 0x1 ≠ 0 then rlo else 0)

/-- Weighted cost of an edge at step `t`. -/
def softCost (nibs : List ℕ) (weights : List ℕ × List ℕ) (t : ℕ) (ps ns : Fin 8) : ℕ :=
  weightedNibbleCost (edgeNibble ps ns) (nibs.getD t 0) (weights.1.getD t 0) (weights.2.getD t 0)

/-- `dsd_popcount64`. -/
def popcount64 (x : ℕ) : ℕ := (Bits.bitsBelow 64 x).length

/-- Distance of an edge from the point received at step `t`. -/
def hardCost (obsPoint : List ℕ) (t : ℕ) (ps ns : Fin 8) : ℕ :=
  popcount64 ((edgePoint ps ns ^^^ obsPoint.getD t 0) &&& 0x0F)

/-- The loops over the states of one step, in both decoders. -/
def viterbiStep (cost : Fin 8 → Fin 8 → ℕ) (stale : Fin 8 → Fin 8) : Sweep 8 := fun metricPrev =>
  (List.finRange 8).foldl
    (fun curr ps =>
      if inf ≤ metricPrev.get ps then curr
      else offerAll (fun ns => metricPrev.get ps + cost ps ns) ps (List.finRange 8) curr)
    (List.Vector.ofFn fun ns => (inf, stale ns))

/-- `r34_metric_init_1d`. -/
def metricInit : Metrics 8 := List.Vector.ofFn fun s => if s = 0 then 0 else inf

/-- `r34_run_viterbi_hard` and `r34_run_viterbi_soft`, by their cost. The back pointers hold
`stale` before the run. -/
def runViterbi (cost : ℕ → Fin 8 → Fin 8 → ℕ) (stale : ℕ → Fin 8 → Fin 8) : Survivors 8 :=
  Survivors.run (fun t => viterbiStep (cost t) (stale t)) ⟨metricInit, stale⟩ 49

/-- Eight states of `r34_pack_states_to_bytes` in one `uint32_t`. -/
def groupBits (states : List (Fin 8)) (g : ℕ) : ℕ :=
  (List.range 8).foldl
    (fun temp k => (temp <<< 3 ||| ((states.getD (g * 8 + k) 0).val &&& 7)) % 2 ^ 32) 0

/-- `r34_pack_states_to_bytes`. -/
def packStatesToBytes (states : List (Fin 8)) : Fin 18 → UInt8 := fun j =>
  (groupBits states (j.val / 3) >>> (16 - 8 * (j.val % 3)) &&& 0xFF).toUInt8

/-- `dmr_r34_viterbi_decode`. -/
def decode (stale : ℕ → Fin 8 → Fin 8) (dibits98 : Fin 98 → UInt8) : Fin 18 → UInt8 :=
  let obsPoint := mapNibblesToPoints (prepareNibbles dibits98)
  packStatesToBytes (statesBack (runViterbi (hardCost obsPoint) stale).back 49 0 [])

/-- `dmr_r34_viterbi_decode_soft`. -/
def decodeSoft (stale : ℕ → Fin 8 → Fin 8) (dibits98 reliab98 : Fin 98 → UInt8) : Fin 18 → UInt8 :=
  let nibs := prepareNibbles dibits98
  let weights := prepareReliabilityWeights (some reliab98)
  packStatesToBytes (statesBack (runViterbi (softCost nibs weights) stale).back 49 0 [])

/-- Three bytes of `dmr_r34_candidate_metric` in one `uint32_t`. -/
def groupPacked (bytes18 : Fin 18 → UInt8) (group : ℕ) : ℕ :=
  (bytes18 (Fin.ofNat 18 (group * 3))).toNat <<< 16 |||
    (bytes18 (Fin.ofNat 18 (group * 3 + 1))).toNat <<< 8 |||
      (bytes18 (Fin.ofNat 18 (group * 3 + 2))).toNat

/-- The states of a candidate, eight to a group, and state zero after the last. -/
def candidateStates (bytes18 : Fin 18 → UInt8) : List (Fin 8) :=
  ((List.range 48).map fun k =>
    Fin.ofNat 8 (groupPacked bytes18 (k / 8) >>> (21 - k % 8 * 3) &&& 7)) ++ [0]

/-- `dmr_r34_candidate_metric`. -/
def candidateMetric (dibits98 : Fin 98 → UInt8) (reliab98 : Option (Fin 98 → UInt8))
    (bytes18 : Fin 18 → UInt8) : ℕ :=
  let nibs := prepareNibbles dibits98
  let weights := prepareReliabilityWeights reliab98
  let states := candidateStates bytes18
  (List.range 49).foldl
    (fun metric t => metric +
      softCost nibs weights t (if t = 0 then 0 else states.getD (t - 1) 0) (states.getD t 0)) 0

theorem getD_range_map {α : Type*} (f : ℕ → α) {n t : ℕ} (ht : t < n) (d : α) :
    ((List.range n).map f).getD t d = f t := by
  simp [List.getD_eq_getElem?_getD, ht]

variable {k group : ℕ}

/-- The digit that a shift of whole digits leaves lowest. -/
theorem shift_and_seven {x : ℕ} (hk : k < 8) :
    x >>> (21 - k * 3) &&& 7 = x / 8 ^ (8 - 1 - k) % 8 := by
  rw [Nat.shiftRight_eq_div_pow, show 21 - k * 3 = 3 * (8 - 1 - k) by omega, Nat.pow_mul]
  exact Nat.and_two_pow_sub_one_eq_mod _ 3

private theorem shift_or_state {temp : ℕ} (ht : temp < 8 ^ 8) (s : Fin 8) :
    (temp <<< 3 ||| (s.val &&& 7)) % 2 ^ 32 = temp * 8 + s.val := by
  have hmask : s.val &&& 7 = s.val := by
    revert s
    decide
  rw [hmask, ← Nat.shiftLeft_add_eq_or_of_lt s.isLt, Nat.shiftLeft_eq]
  exact Nat.mod_eq_of_lt (by omega)

theorem groupBits_eq (states : List (Fin 8)) (g : ℕ) :
    groupBits states g = Digits.number 8 (fun k => (states.getD (g * 8 + k) 0).val) 8 := by
  have hrun : ∀ n, n ≤ 8 → (List.range n).foldl
      (fun temp k => (temp <<< 3 ||| ((states.getD (g * 8 + k) 0).val &&& 7)) % 2 ^ 32) 0 =
        Digits.number 8 (fun k => (states.getD (g * 8 + k) 0).val) n := by
    intro n hn
    induction n with
    | zero => rfl
    | succ n ih =>
      have hlt := Digits.number_lt (n := n) fun k _ => (states.getD (g * 8 + k) 0).isLt
      have hpow : 8 ^ n ≤ 8 ^ 8 := Nat.pow_le_pow_right (by decide) (by omega)
      rw [List.range_succ, List.foldl_append, List.foldl_cons, List.foldl_nil, ih (by omega),
        Digits.number_succ, shift_or_state (hlt.trans_le hpow)]
  exact hrun 8 le_rfl

theorem groupBits_lt (states : List (Fin 8)) (g : ℕ) : groupBits states g < 256 ^ 3 := by
  rw [groupBits_eq]
  exact Digits.number_lt (n := 8) fun k _ => (states.getD (g * 8 + k) 0).isLt

theorem groupPacked_eq (bytes18 : Fin 18 → UInt8) (group : ℕ) :
    groupPacked bytes18 group =
      Digits.number 256 (fun r => (bytes18 (Fin.ofNat 18 (group * 3 + r))).toNat) 3 := by
  have h1 := (bytes18 (Fin.ofNat 18 (group * 3 + 1))).toNat_lt
  have h2 := (bytes18 (Fin.ofNat 18 (group * 3 + 2))).toNat_lt
  rw [groupPacked, Nat.or_assoc, ← Nat.shiftLeft_add_eq_or_of_lt h2,
    ← Nat.shiftLeft_add_eq_or_of_lt (by rw [Nat.shiftLeft_eq]; omega), Digits.number_succ,
    Digits.number_succ, Digits.number_succ]
  simp only [Nat.shiftLeft_eq, Digits.number_zero, Nat.add_zero]
  omega

theorem groupPacked_lt (bytes18 : Fin 18 → UInt8) (group : ℕ) :
    groupPacked bytes18 group < 8 ^ 8 := by
  rw [groupPacked_eq]
  exact Digits.number_lt (n := 3) fun r _ => (bytes18 (Fin.ofNat 18 (group * 3 + r))).toNat_lt

theorem toNat_packStatesToBytes (states : List (Fin 8)) {r : ℕ} (hg : group < 6) (hr : r < 3) :
    (packStatesToBytes states (Fin.ofNat 18 (group * 3 + r))).toNat =
      groupBits states group / 256 ^ (3 - 1 - r) % 256 := by
  have hval : (Fin.ofNat 18 (group * 3 + r)).val = group * 3 + r := Nat.mod_eq_of_lt (by omega)
  have hmask : ∀ x, x &&& 0xFF = x % 256 := fun x => Nat.and_two_pow_sub_one_eq_mod x 8
  rw [packStatesToBytes, hval, show (group * 3 + r) / 3 = group by omega,
    show (group * 3 + r) % 3 = r by omega, hmask, Nat.toUInt8, UInt8.toNat_ofNat', Nat.mod_mod,
    Nat.shiftRight_eq_div_pow, show 16 - 8 * r = 8 * (3 - 1 - r) by omega, Nat.pow_mul]

theorem groupPacked_packStatesToBytes (states : List (Fin 8)) (hg : group < 6) :
    groupPacked (packStatesToBytes states) group = groupBits states group := by
  rw [groupPacked_eq]
  refine (Digits.number_congr fun r hr => toNat_packStatesToBytes states hg hr).trans ?_
  exact Digits.number_digits (groupBits_lt states group)

theorem getD_candidateStates (bytes18 : Fin 18 → UInt8) (hk : k < 48) :
    ((candidateStates bytes18).getD k 0).val =
      groupPacked bytes18 (k / 8) / 8 ^ (8 - 1 - k % 8) % 8 := by
  rw [candidateStates, List.getD_append _ _ _ _ (by simpa using hk), getD_range_map _ hk,
    shift_and_seven (by omega)]
  exact Nat.mod_mod _ _

theorem getD_candidateStates_last (bytes18 : Fin 18 → UInt8) :
    (candidateStates bytes18).getD 48 0 = 0 := by
  rw [candidateStates, List.getD_append_right _ _ _ _ (by simp)]
  simp

theorem getD_candidateStates_pack (states : List (Fin 8)) (hk : k < 48) :
    (candidateStates (packStatesToBytes states)).getD k 0 = states.getD k 0 := by
  refine Fin.ext ?_
  rw [getD_candidateStates _ hk, groupPacked_packStatesToBytes _ (by omega), groupBits_eq,
    Digits.digit_number (by decide) (fun i _ => (states.getD (k / 8 * 8 + i) 0).isLt) (by omega),
    show k / 8 * 8 + k % 8 = k by omega]

theorem groupBits_candidateStates (bytes18 : Fin 18 → UInt8) (hg : group < 6) :
    groupBits (candidateStates bytes18) group = groupPacked bytes18 group := by
  rw [groupBits_eq]
  refine (Digits.number_congr fun k hk => ?_).trans
    (Digits.number_digits (groupPacked_lt bytes18 group))
  rw [getD_candidateStates _ (by omega), show (group * 8 + k) / 8 = group by omega,
    show (group * 8 + k) % 8 = k by omega]

theorem packStatesToBytes_congr {states states' : List (Fin 8)}
    (h : ∀ k, k < 48 → states.getD k 0 = states'.getD k 0) :
    packStatesToBytes states = packStatesToBytes states' := by
  funext j
  rw [packStatesToBytes, packStatesToBytes, groupBits_eq, groupBits_eq,
    Digits.number_congr fun k hk => congrArg Fin.val (h (j.val / 3 * 8 + k) (by omega))]

/-- Unpacked states pack to the same bytes. -/
theorem packStatesToBytes_candidateStates (bytes18 : Fin 18 → UInt8) :
    packStatesToBytes (candidateStates bytes18) = bytes18 := by
  funext j
  have hj : Fin.ofNat 18 (j.val / 3 * 3 + j.val % 3) = j := by
    refine Fin.ext ?_
    rw [Fin.val_ofNat]
    omega
  refine UInt8.toNat_inj.mp ?_
  rw [← hj, toNat_packStatesToBytes _ (by omega) (by omega),
    groupBits_candidateStates _ (by omega), groupPacked_eq,
    Digits.digit_number (by decide) (fun r _ => UInt8.toNat_lt _) (by omega)]

end DsdNeo.Dmr.Rate34
