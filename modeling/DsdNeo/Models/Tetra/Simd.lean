import DsdNeo.Core.Simd.Sse2
import Mathlib.Algebra.BigOperators.Group.Finset.Basic
import Mathlib.Tactic.IntervalCases
import Mathlib.Tactic.Ring

/-!
# The add-compare-select kernels

`tetra_fec.c`: the scalar trellis step that the source calls the reference, and
the SSE2 kernel that holds the sixteen metrics in four vectors. Metrics are
32-bit and costs 16-bit words, and every operation is the one of the source, so
that wrapping and the two kinds of comparison are part of the model.
-/

namespace DsdNeo.Tetra

open Sse2

/-- `tetra_conv_code`. -/
structure ConvCode where
  /-- Coded bits per input bit. -/
  lanes : ℕ
  /-- Generator polynomial terms. -/
  taps : List ℕ
  /-- Whether the register takes the new input at the bottom. -/
  shiftUp : Bool
  /-- Coded word on the lower predecessor's edge into each destination. -/
  incoming : Vector (BitVec 32) 16

/-- `k_signalling_code`. -/
def signallingCode : ConvCode where
  lanes := 4
  taps := [0x19, 0x1E, 0x1B, 0x1D]
  shiftUp := true
  incoming := #v[0, 15, 13, 2, 6, 9, 11, 4, 10, 5, 7, 8, 12, 3, 1, 14]

/-- `k_speech_code`. -/
def speechCode : ConvCode where
  lanes := 3
  taps := [0x1F, 0x1B, 0x15, 0x00]
  shiftUp := false
  incoming := #v[0, 3, 5, 6, 3, 0, 6, 5, 7, 4, 2, 1, 4, 7, 1, 2]

/-- `TETRA_VITERBI_INF`. -/
def viterbiInf : ℕ := (2 ^ 32 - 1) / 4

/-- `TETRA_VITERBI_INF` as a metric. -/
def inf : BitVec 32 := BitVec.ofNat 32 viterbiInf

/-- Survivor metrics of the sixteen states. -/
abbrev Metrics := Vector (BitVec 32) 16

/-- Surviving predecessors of the sixteen states. -/
abbrev Row := Vector (BitVec 8) 16

/-- Cost of a step's coded bit, zero beyond the array. -/
def costAt (costs : List (BitVec 16)) (i : ℕ) : BitVec 16 := costs.getD i 0

/-- Price of one coded bit of the lower edge into `dst`. -/
def laneBranch (code : ConvCode) (cost : BitVec 16) (lane : ℕ) (dst : Fin 16) : BitVec 32 :=
  let zero : BitVec 32 := cost.setWidth 32
  let one := 65535 - zero
  if (code.incoming.get dst >>> lane) &&& 1 ≠ 0 then one else zero

/-- Branch metric of the lower edge into `dst`, one lane after the other. -/
def branch (code : ConvCode) (step : List (BitVec 16)) (dst : Fin 16) : BitVec 32 :=
  (List.range code.lanes).foldl
    (fun sum lane => sum + laneBranch code (costAt step lane) lane dst) 0

theorem half_lt (dst : Fin 16) : dst.val >>> 1 < 16 := by
  rw [Nat.shiftRight_one]
  omega

theorem and_fifteen_lt (n : ℕ) : n &&& 15 < 16 :=
  Nat.lt_of_le_of_lt Nat.and_le_right (by decide)

/-- Lower predecessor. -/
def lowState (shiftUp : Bool) (dst : Fin 16) : Fin 16 :=
  if shiftUp then ⟨dst.val >>> 1, half_lt dst⟩ else ⟨(dst.val <<< 1) &&& 15, and_fifteen_lt _⟩

/-- Higher predecessor. -/
def highState (shiftUp : Bool) (dst : Fin 16) : Fin 16 :=
  lowState shiftUp dst + if shiftUp then 8 else 1

/-- The two sums a destination compares. -/
def sums (code : ConvCode) (prev : Metrics) (step : List (BitVec 16)) (dst : Fin 16) :
    BitVec 32 × BitVec 32 :=
  let complement := BitVec.ofNat 32 code.lanes * 65535
  (prev[lowState code.shiftUp dst] + branch code step dst,
    prev[highState code.shiftUp dst] + (complement - branch code step dst))

/-- The smaller sum; strict improvement takes the higher predecessor. -/
def best (code : ConvCode) (prev : Metrics) (step : List (BitVec 16)) (dst : Fin 16) : BitVec 32 :=
  let s := sums code prev step dst
  if s.2 < s.1 then s.2 else s.1

/-- The predecessor of the smaller sum. -/
def survivor (code : ConvCode) (prev : Metrics) (step : List (BitVec 16)) (dst : Fin 16) : Fin 16 :=
  let s := sums code prev step dst
  if s.2 < s.1 then highState code.shiftUp dst else lowState code.shiftUp dst

/-- `conv_acs_step`: the new metrics and the predecessors, an unreachable state being
clamped with predecessor zero. -/
def convAcsStep (code : ConvCode) (prev : Metrics) (step : List (BitVec 16)) : Metrics × Row :=
  (Vector.ofFn fun dst => if best code prev step dst < inf then best code prev step dst else inf,
    Vector.ofFn fun dst =>
      if best code prev step dst < inf then BitVec.ofNat 8 (survivor code prev step dst).val else 0)

/-- `conv_acs_run_scalar` over the costs of `nsteps` steps: final metrics and rows.
The two metric buffers it alternates between hold the metrics of the last step and
of the one before. -/
def convAcsRunScalar (code : ConvCode) : ℕ → Metrics → List (BitVec 16) → Metrics × List Row
  | 0, metric, _ => (metric, [])
  | nsteps + 1, metric, costs =>
    let r := convAcsStep code metric costs
    let rest := convAcsRunScalar code nsteps r.1 (costs.drop code.lanes)
    (rest.1, r.2 :: rest.2)

/-- Four vectors of four metrics, states `4 k .. 4 k + 3` in vector `k`. -/
abbrev Survivors := Vector (Lanes 4 32) 4

/-- `conv_acs_safe_limit`, in 64-bit arithmetic. -/
def convAcsSafeLimit (remaining lanes : ℕ) : ℕ :=
  let growth := remaining * lanes * 65535
  if growth < viterbiInf then viterbiInf - growth else 0

/-- `acs_select_sse2`. -/
def acsSelectSse2 (mask whenSet otherwise : Lanes 4 32) : Lanes 4 32 :=
  or (and mask whenSet) (andnot mask otherwise)

/-- `acs_deinterleave_sse2`. -/
def acsDeinterleaveSse2 (a b : Lanes 4 32) (odd : Bool) : Lanes 4 32 :=
  if odd then shuffle a b 3 1 3 1 else shuffle a b 2 0 2 0

/-- `acs_vector_sse2`: the survivors, the selection mask and, with `clamp`, the mask of
survivors below the bound. -/
def acsVectorSse2 (low high branch complement : Lanes 4 32) (clamp : Bool) :
    Lanes 4 32 × Lanes 4 32 × Lanes 4 32 :=
  let a := add low branch
  let b := add high (sub complement branch)
  let tookHigh := cmpgt a b
  let best := acsSelectSse2 tookHigh b a
  if clamp then
    let reachable := cmpgt (set1 inf) best
    (acsSelectSse2 reachable best (set1 inf), tookHigh, reachable)
  else (best, tookHigh, set1 0)

/-- `acs_narrow_masks_sse2`. -/
def acsNarrowMasksSse2 (m : Vector (Lanes 4 32) 4) : Lanes 16 8 :=
  packs16 (packs32 m[0] m[1]) (packs32 m[2] m[3])

/-- Index of the lower predecessors, as the kernel spells it out. -/
def lowIndex (shiftUp : Bool) : Lanes 16 8 :=
  if shiftUp then #v[0, 0, 1, 1, 2, 2, 3, 3, 4, 4, 5, 5, 6, 6, 7, 7]
  else #v[0, 2, 4, 6, 8, 10, 12, 14, 0, 2, 4, 6, 8, 10, 12, 14]

/-- Survivors of the lower predecessors, by fixed shuffles. -/
def lowVectors (shiftUp : Bool) (p : Survivors) : Vector (Lanes 4 32) 4 :=
  if shiftUp then #v[unpacklo p[0] p[0], unpackhi p[0] p[0], unpacklo p[1] p[1], unpackhi p[1] p[1]]
  else
    let l0 := acsDeinterleaveSse2 p[0] p[1] false
    let l1 := acsDeinterleaveSse2 p[2] p[3] false
    #v[l0, l1, l0, l1]

/-- Survivors of the higher predecessors. -/
def highVectors (shiftUp : Bool) (p : Survivors) : Vector (Lanes 4 32) 4 :=
  if shiftUp then #v[unpacklo p[2] p[2], unpackhi p[2] p[2], unpacklo p[3] p[3], unpackhi p[3] p[3]]
  else
    let h0 := acsDeinterleaveSse2 p[0] p[1] true
    let h1 := acsDeinterleaveSse2 p[2] p[3] true
    #v[h0, h1, h0, h1]

/-- `lane_mask[lane][k]` of `conv_acs_run_simd`. -/
def laneMask (code : ConvCode) (lane : ℕ) (k : Fin 4) : Lanes 4 32 :=
  let bit := set1 (BitVec.ofNat 32 (1 <<< lane))
  let incoming : Lanes 4 32 := Vector.ofFn fun i : Fin 4 => code.incoming[4 * k.val + i.val]
  cmpeq (and incoming bit) bit

/-- Branch vector `k`: the sum of the costs, and for each coded one the difference. -/
def branchVector (laneMask : ℕ → Fin 4 → Lanes 4 32) (step : List (BitVec 16)) (lanes : ℕ)
    (k : Fin 4) : Lanes 4 32 :=
  let base := (List.range lanes).foldl (fun base lane => base + (costAt step lane).toNat) 0
  (List.range lanes).foldl
    (fun b lane => add b (and (laneMask lane k)
      (set1 (BitVec.ofInt 32 (65535 - 2 * ((costAt step lane).toNat : ℤ))))))
    (set1 (BitVec.ofNat 32 base))

/-- `acs_step_sse2`: the new survivors and the row of predecessors. -/
def acsStepSse2 (p : Survivors) (laneMask : ℕ → Fin 4 → Lanes 4 32) (step : List (BitVec 16))
    (lanes : ℕ) (shiftUp clamp : Bool) : Survivors × Row :=
  let complement := set1 (BitVec.ofNat 32 (lanes * 65535))
  let delta : Lanes 16 8 := set1 (if shiftUp then 8 else 1)
  let r := fun k : Fin 4 => acsVectorSse2 (lowVectors shiftUp p)[k] (highVectors shiftUp p)[k]
    (branchVector laneMask step lanes k) complement clamp
  let took := acsNarrowMasksSse2 #v[(r 0).2.1, (r 1).2.1, (r 2).2.1, (r 3).2.1]
  let reachable := acsNarrowMasksSse2 #v[(r 0).2.2, (r 1).2.2, (r 2).2.2, (r 3).2.2]
  let chosen := add (lowIndex shiftUp) (and took delta)
  (#v[(r 0).1, (r 1).1, (r 2).1, (r 3).1], if clamp then and reachable chosen else chosen)

/-- `acs_all_below_sse2`. -/
def acsAllBelowSse2 (p : Survivors) (limit : ℕ) : Bool :=
  let bound : Lanes 4 32 := set1 (BitVec.ofNat 32 limit)
  let below := and (and (cmpgt bound p[0]) (cmpgt bound p[1]))
    (and (cmpgt bound p[2]) (cmpgt bound p[3]))
  movemask below == 0xFFFF

/-- The second loop of `conv_acs_run_simd`: no clamping. -/
def runFree (laneMask : ℕ → Fin 4 → Lanes 4 32) (lanes : ℕ) (shiftUp : Bool) :
    ℕ → Survivors → List (BitVec 16) → Survivors × List Row
  | 0, p, _ => (p, [])
  | nsteps + 1, p, costs =>
    let r := acsStepSse2 p laneMask costs lanes shiftUp false
    let rest := runFree laneMask lanes shiftUp nsteps r.1 (costs.drop lanes)
    (rest.1, r.2 :: rest.2)

/-- The first loop of `conv_acs_run_simd`, with `nsteps` steps left, which clamps until
every survivor is below the safe limit. -/
def runClamped (laneMask : ℕ → Fin 4 → Lanes 4 32) (lanes : ℕ) (shiftUp : Bool) :
    ℕ → Survivors → List (BitVec 16) → Survivors × List Row
  | 0, p, _ => (p, [])
  | nsteps + 1, p, costs =>
    if acsAllBelowSse2 p (convAcsSafeLimit (nsteps + 1) lanes) then
      runFree laneMask lanes shiftUp (nsteps + 1) p costs
    else
      let r := acsStepSse2 p laneMask costs lanes shiftUp true
      let rest := runClamped laneMask lanes shiftUp nsteps r.1 (costs.drop lanes)
      (rest.1, r.2 :: rest.2)

/-- Load sixteen metrics into four vectors. -/
def load (metric : Metrics) : Survivors :=
  Vector.ofFn fun k : Fin 4 => Vector.ofFn fun i : Fin 4 => metric[4 * k.val + i.val]

/-- Store the four vectors. -/
def store (p : Survivors) : Metrics :=
  Vector.ofFn fun s : Fin 16 =>
    (p.get ⟨s.val / 4, by omega⟩).get ⟨s.val % 4, Nat.mod_lt _ (by decide)⟩

/-- `conv_acs_run_simd`. -/
def convAcsRunSimd (code : ConvCode) (nsteps : ℕ) (metric : Metrics) (costs : List (BitVec 16)) :
    Metrics × List Row :=
  let r := runClamped (laneMask code) code.lanes code.shiftUp nsteps (load metric) costs
  (store r.1, r.2)

/-!
# The vector kernel matches the reference

Lane by lane the vector step adds the same two sums as the scalar one: the
shuffles fetch the predecessors' metrics and the masked differences add up,
modulo `2 ^ 32`, to the branch metric. As long as no metric exceeds the bound,
every sum stays below `2 ^ 31`, so that signed and unsigned comparisons agree.
The step that drops clamping agrees as long as no survivor reaches the bound,
which the safe limit guarantees for all the steps that remain.
-/

theorem toNat_laneBranch_le (code : ConvCode) (cost : BitVec 16) (lane : ℕ) (dst : Fin 16) :
    (laneBranch code cost lane dst).toNat ≤ 65535 := by
  have hcost := cost.isLt
  simp only [laneBranch]
  split
  · rw [BitVec.toNat_sub_of_le (by rw [BitVec.le_def]; simp; omega)]
    exact Nat.sub_le _ _
  · simp
    omega

private theorem foldl_add_le (f : ℕ → BitVec 32) (hf : ∀ i, (f i).toNat ≤ 65535) {n : ℕ}
    (hn : n ≤ 4) :
    ((List.range n).foldl (fun sum i => sum + f i) 0).toNat = ∑ i ∈ Finset.range n, (f i).toNat ∧
      ∑ i ∈ Finset.range n, (f i).toNat ≤ n * 65535 := by
  induction n with
  | zero => simp
  | succ n ih =>
    obtain ⟨hsum, hle⟩ := ih (by omega)
    have hlast := hf n
    rw [List.range_succ, List.foldl_append, Finset.sum_range_succ]
    refine ⟨?_, by omega⟩
    rw [List.foldl_cons, List.foldl_nil, BitVec.toNat_add, hsum, Nat.mod_eq_of_lt (by omega)]

variable {code : ConvCode}

theorem toNat_branch (hl : code.lanes ≤ 4) (step : List (BitVec 16)) (dst : Fin 16) :
    (branch code step dst).toNat =
        ∑ lane ∈ Finset.range code.lanes, (laneBranch code (costAt step lane) lane dst).toNat ∧
      (branch code step dst).toNat ≤ code.lanes * 65535 := by
  obtain ⟨hsum, hle⟩ := foldl_add_le (fun lane => laneBranch code (costAt step lane) lane dst)
    (fun lane => toNat_laneBranch_le code _ lane dst) hl
  exact ⟨hsum, hsum.trans_le hle⟩

variable {prev metric : Metrics}

/-- The two sums as numbers. -/
theorem toNat_sums (hl : code.lanes ≤ 4) (hprev : ∀ s : Fin 16, prev[s].toNat ≤ viterbiInf)
    (step : List (BitVec 16)) (dst : Fin 16) :
    (sums code prev step dst).1.toNat =
        prev[lowState code.shiftUp dst].toNat + (branch code step dst).toNat ∧
      (sums code prev step dst).2.toNat = prev[highState code.shiftUp dst].toNat +
        (code.lanes * 65535 - (branch code step dst).toNat) := by
  have hbranch := (toNat_branch hl step dst).2
  have hlow := hprev (lowState code.shiftUp dst)
  have hhigh := hprev (highState code.shiftUp dst)
  have hinf : viterbiInf = 1073741823 := rfl
  have hcomplement : (BitVec.ofNat 32 code.lanes * 65535).toNat = code.lanes * 65535 := by
    rw [BitVec.toNat_mul, BitVec.toNat_ofNat]
    simp
    omega
  simp only [sums]
  refine ⟨?_, ?_⟩
  · rw [BitVec.toNat_add, Nat.mod_eq_of_lt (by omega)]
  · rw [BitVec.toNat_add,
      BitVec.toNat_sub_of_le (by rw [BitVec.le_def, hcomplement]; exact hbranch),
      hcomplement, Nat.mod_eq_of_lt (by omega)]

/-- Destination of lane `i` of vector `k`. -/
def stateOf (k i : Fin 4) : Fin 16 := ⟨4 * k.val + i.val, by omega⟩

theorem exists_stateOf (dst : Fin 16) : ∃ k i, dst = stateOf k i :=
  ⟨⟨dst.val / 4, by omega⟩, ⟨dst.val % 4, Nat.mod_lt _ (by decide)⟩,
    Fin.ext (Nat.div_add_mod dst.val 4).symm⟩

theorem getElem_load (metric : Metrics) (k i : Fin 4) :
    (load metric)[k][i] = metric[stateOf k i] := by
  simp [load, stateOf]

theorem lowVectors_load (shiftUp : Bool) (metric : Metrics) (k i : Fin 4) :
    (lowVectors shiftUp (load metric))[k][i] = metric[lowState shiftUp (stateOf k i)] := by
  cases shiftUp <;> fin_cases k <;> fin_cases i <;> rfl

theorem highVectors_load (shiftUp : Bool) (metric : Metrics) (k i : Fin 4) :
    (highVectors shiftUp (load metric))[k][i] = metric[highState shiftUp (stateOf k i)] := by
  cases shiftUp <;> fin_cases k <;> fin_cases i <;> rfl

theorem getElem_laneMask (code : ConvCode) {lane : ℕ} (hlane : lane < 4) (k : Fin 4)
    {i : ℕ} (hi : i < 4) : (laneMask code lane k)[i] =
      mask 32 (decide ((code.incoming.get (stateOf k ⟨i, hi⟩) >>> lane) &&& 1 ≠ 0)) := by
  have hbit : BitVec.ofNat 32 (1 <<< lane) = BitVec.twoPow 32 lane := by
    interval_cases lane <;> rfl
  have hword : ∀ x : BitVec 32, ((x &&& BitVec.ofNat 32 (1 <<< lane)) ==
      BitVec.ofNat 32 (1 <<< lane)) = decide ((x >>> lane) &&& 1 ≠ 0) := by
    intro x
    have hone : (x >>> lane) &&& 1 = if x.getLsbD lane then 1 else 0 := by
      have h := BitVec.and_twoPow (x >>> lane) 0
      rw [BitVec.getLsbD_ushiftRight, Nat.add_zero] at h
      exact h
    have hne : BitVec.twoPow 32 lane ≠ 0 := by interval_cases lane <;> decide
    rw [hbit, BitVec.and_twoPow, hone]
    cases x.getLsbD lane
    · simpa using hne.symm
    · simp
  simp only [laneMask, getElem_cmpeq, getElem_and, getElem_set1, Vector.getElem_ofFn, hword]
  rfl

private theorem getElem_foldl_add {β : Type*} (l : List β) (v : β → Lanes 4 32) (b : Lanes 4 32)
    (i : Fin 4) :
    (l.foldl (fun b x => add b (v x)) b)[i] = l.foldl (fun y x => y + (v x)[i]) b[i] := by
  induction l generalizing b with
  | nil => rfl
  | cons x l ih => rw [List.foldl_cons, ih, List.foldl_cons]; simp

private theorem foldl_add_eq {M : Type*} [AddCommMonoid M] (f : ℕ → M) (n : ℕ) (b : M) :
    (List.range n).foldl (fun sum i => sum + f i) b = b + ∑ i ∈ Finset.range n, f i := by
  induction n with
  | zero => simp
  | succ n ih =>
    rw [List.range_succ, List.foldl_append, ih, Finset.sum_range_succ, ← add_assoc]
    rfl

private theorem laneBranch_eq (code : ConvCode) (cost : BitVec 16) (lane : ℕ) (dst : Fin 16) :
    laneBranch code cost lane dst = BitVec.ofNat 32 cost.toNat +
      bif decide ((code.incoming.get dst >>> lane) &&& 1 ≠ 0) then
        BitVec.ofInt 32 (65535 - 2 * (cost.toNat : ℤ)) else 0 := by
  have hdiff : (65535 : BitVec 32) - BitVec.ofNat 32 cost.toNat =
      BitVec.ofNat 32 cost.toNat + BitVec.ofInt 32 (65535 - 2 * (cost.toNat : ℤ)) := by
    have hint : BitVec.ofNat 32 cost.toNat = BitVec.ofInt 32 cost.toNat := rfl
    refine (eq_sub_of_add_eq ?_).symm
    rw [hint, ← BitVec.ofInt_add, ← BitVec.ofInt_add,
      show (cost.toNat : ℤ) + (65535 - 2 * (cost.toNat : ℤ)) + (cost.toNat : ℤ) = 65535 by ring]
    rfl
  rw [BitVec.ofNat_toNat] at hdiff ⊢
  simp only [laneBranch]
  by_cases h : (code.incoming.get dst >>> lane) &&& 1 ≠ 0
  · rw [if_pos h, decide_eq_true h, cond_true, hdiff]
  · rw [if_neg h, decide_eq_false h, cond_false, BitVec.ofNat_eq_ofNat, BitVec.add_zero]

theorem getElem_branchVector (code : ConvCode) (hl : code.lanes ≤ 4) (step : List (BitVec 16))
    (k i : Fin 4) :
    (branchVector (laneMask code) step code.lanes k)[i] = branch code step (stateOf k i) := by
  let cost : ℕ → BitVec 32 := fun lane => BitVec.ofNat 32 (costAt step lane).toNat
  let diff : ℕ → BitVec 32 := fun lane =>
    bif decide ((code.incoming.get (stateOf k i) >>> lane) &&& 1 ≠ 0) then
      BitVec.ofInt 32 (65535 - 2 * ((costAt step lane).toNat : ℤ)) else 0
  have hbase : BitVec.ofNat 32 ((List.range code.lanes).foldl
      (fun base lane => base + (costAt step lane).toNat) 0) =
      ∑ lane ∈ Finset.range code.lanes, cost lane := by
    rw [foldl_add_eq, zero_add]
    exact map_sum (Nat.castRingHom (BitVec 32)) _ _
  have hdiff : ∀ lane ∈ Finset.range code.lanes, (and (laneMask code lane k)
      (set1 (BitVec.ofInt 32 (65535 - 2 * ((costAt step lane).toNat : ℤ)))))[i] = diff lane := by
    intro lane hlane
    have hlt : lane < 4 := lt_of_lt_of_le (Finset.mem_range.mp hlane) hl
    rw [Fin.getElem_fin, getElem_and, getElem_laneMask code hlt k i.isLt, getElem_set1, mask_and]
  have hbranch : branch code step (stateOf k i) =
      ∑ lane ∈ Finset.range code.lanes, cost lane + ∑ lane ∈ Finset.range code.lanes,
        diff lane := by
    rw [branch, foldl_add_eq, zero_add, ← Finset.sum_add_distrib]
    exact Finset.sum_congr rfl fun lane _ => laneBranch_eq code _ lane _
  rw [branchVector, getElem_foldl_add, hbase, foldl_add_eq, Finset.sum_congr rfl hdiff, hbranch,
    Fin.getElem_fin, getElem_set1]

theorem getElem_narrowMasks {m : Vector (Lanes 4 32) 4} {p : Fin 16 → Bool}
    (h : ∀ k i : Fin 4, m[k][i] = mask 32 (p (stateOf k i))) (dst : Fin 16) :
    (acsNarrowMasksSse2 m)[dst] = mask 8 (p dst) := by
  obtain ⟨k, i, rfl⟩ := exists_stateOf dst
  have hnarrow : (acsNarrowMasksSse2 m)[stateOf k i] = saturate 8 (saturate 16 m[k][i]) := by
    fin_cases k <;> fin_cases i <;> rfl
  rw [hnarrow, h, saturate_mask, saturate_mask_byte]

private theorem getElem_acsVector (low high branch complement : Lanes 4 32) (clamp : Bool) (i : ℕ)
    (h : i < 4) :
    let a := low[i] + branch[i]
    let b := high[i] + (complement[i] - branch[i])
    let best := bif b.slt a then b else a
    (acsVectorSse2 low high branch complement clamp).1[i] =
        (bif clamp then bif best.slt inf then best else inf else best) ∧
      (acsVectorSse2 low high branch complement clamp).2.1[i] = mask 32 (b.slt a) ∧
      (clamp = true →
        (acsVectorSse2 low high branch complement clamp).2.2[i] = mask 32 (best.slt inf)) := by
  cases clamp
  · simp only [acsVectorSse2, acsSelectSse2, Bool.false_eq_true, ite_false, getElem_or, getElem_and,
      getElem_andnot, getElem_cmpgt, getElem_add, getElem_sub, mask_select, cond_false,
      false_implies, and_self]
  · simp only [acsVectorSse2, acsSelectSse2, ite_true, getElem_or, getElem_and, getElem_andnot,
      getElem_cmpgt, getElem_add, getElem_sub, getElem_set1, mask_select, cond_true,
      forall_const, and_self]

/-- One vector of the step. -/
def acsVectorAt (code : ConvCode) (prev : Metrics) (step : List (BitVec 16)) (clamp : Bool)
    (k : Fin 4) : Lanes 4 32 × Lanes 4 32 × Lanes 4 32 :=
  acsVectorSse2 (lowVectors code.shiftUp (load prev))[k] (highVectors code.shiftUp (load prev))[k]
    (branchVector (laneMask code) step code.lanes k)
    (set1 (BitVec.ofNat 32 (code.lanes * 65535))) clamp

/-- Selection masks of the four vectors. -/
def tookHigh (code : ConvCode) (prev : Metrics) (step : List (BitVec 16)) (clamp : Bool) :
    Vector (Lanes 4 32) 4 :=
  #v[(acsVectorAt code prev step clamp 0).2.1, (acsVectorAt code prev step clamp 1).2.1,
    (acsVectorAt code prev step clamp 2).2.1, (acsVectorAt code prev step clamp 3).2.1]

/-- Reachability masks of the four vectors. -/
def reachable (code : ConvCode) (prev : Metrics) (step : List (BitVec 16)) (clamp : Bool) :
    Vector (Lanes 4 32) 4 :=
  #v[(acsVectorAt code prev step clamp 0).2.2, (acsVectorAt code prev step clamp 1).2.2,
    (acsVectorAt code prev step clamp 2).2.2, (acsVectorAt code prev step clamp 3).2.2]

private theorem load_eq {step : List (BitVec 16)} {f : Fin 16 → BitVec 32} {clamp : Bool}
    (h : ∀ k i : Fin 4, (acsVectorAt code prev step clamp k).1[i] = f (stateOf k i)) :
    (#v[(acsVectorAt code prev step clamp 0).1, (acsVectorAt code prev step clamp 1).1,
      (acsVectorAt code prev step clamp 2).1, (acsVectorAt code prev step clamp 3).1] : Survivors) =
      load (Vector.ofFn f) := by
  refine Vector.ext fun k hk => Vector.ext fun i hi => ?_
  have hlane := h ⟨k, hk⟩ ⟨i, hi⟩
  have hload := getElem_load (Vector.ofFn f) ⟨k, hk⟩ ⟨i, hi⟩
  simp only [Fin.getElem_fin, Vector.getElem_ofFn] at hload hlane
  rw [hload]
  refine Eq.trans ?_ hlane
  interval_cases k <;> rfl

/-- The spelled-out indices are the predecessors'. -/
private theorem lowIndex_eq (shiftUp : Bool) (dst : Fin 16) :
    (lowIndex shiftUp)[dst] = BitVec.ofNat 8 (lowState shiftUp dst).val ∧
      (lowIndex shiftUp)[dst] + (if shiftUp then 8 else 1) =
        BitVec.ofNat 8 (highState shiftUp dst).val := by
  revert shiftUp dst
  decide

section Step

variable {code : ConvCode} (hl : code.lanes ≤ 4) {prev : Metrics}
  (hprev : ∀ s : Fin 16, prev[s].toNat ≤ viterbiInf) (step : List (BitVec 16))

include hl hprev

theorem sums_lt (dst : Fin 16) : (sums code prev step dst).1.toNat < 2 ^ 31 ∧
    (sums code prev step dst).2.toNat < 2 ^ 31 := by
  obtain ⟨ha, hb⟩ := toNat_sums hl hprev step dst
  have hbranch := (toNat_branch hl step dst).2
  have hlow := hprev (lowState code.shiftUp dst)
  have hhigh := hprev (highState code.shiftUp dst)
  have hinf : viterbiInf = 1073741823 := rfl
  omega

theorem best_lt (dst : Fin 16) : (best code prev step dst).toNat < 2 ^ 31 := by
  obtain ⟨ha, hb⟩ := sums_lt hl hprev step dst
  simp only [best]
  split
  · exact hb
  · exact ha

theorem acsVectorAt_lane (clamp : Bool) (k i : Fin 4) :
    (acsVectorAt code prev step clamp k).1[i] =
        (if clamp then
          if best code prev step (stateOf k i) < inf then best code prev step (stateOf k i) else inf
        else best code prev step (stateOf k i)) ∧
      (acsVectorAt code prev step clamp k).2.1[i] = mask 32
        (decide ((sums code prev step (stateOf k i)).2 < (sums code prev step (stateOf k i)).1)) ∧
      (clamp = true → (acsVectorAt code prev step clamp k).2.2[i] =
        mask 32 (decide (best code prev step (stateOf k i) < inf))) := by
  obtain ⟨ha, hb⟩ := sums_lt hl hprev step (stateOf k i)
  have hinf : inf.toNat < 2 ^ 31 := by decide
  have hsum1 : (lowVectors code.shiftUp (load prev))[k][i] +
      (branchVector (laneMask code) step code.lanes k)[i] =
      (sums code prev step (stateOf k i)).1 := by
    rw [lowVectors_load, getElem_branchVector code hl, sums]
  have hsum2 : (highVectors code.shiftUp (load prev))[k][i] +
      ((set1 (BitVec.ofNat 32 (code.lanes * 65535)) : Lanes 4 32)[i] -
        (branchVector (laneMask code) step code.lanes k)[i]) =
      (sums code prev step (stateOf k i)).2 := by
    have hset : (set1 (BitVec.ofNat 32 (code.lanes * 65535)) : Lanes 4 32)[i] =
        BitVec.ofNat 32 (code.lanes * 65535) := getElem_set1 _ i.val i.isLt
    rw [highVectors_load, getElem_branchVector code hl, hset, sums, BitVec.ofNat_mul]
    rfl
  obtain ⟨hsurvivor, htook, hreach⟩ := getElem_acsVector
    (lowVectors code.shiftUp (load prev))[k] (highVectors code.shiftUp (load prev))[k]
    (branchVector (laneMask code) step code.lanes k)
    (set1 (BitVec.ofNat 32 (code.lanes * 65535))) clamp i i.isLt
  have hbest : (bif decide ((sums code prev step (stateOf k i)).2 <
      (sums code prev step (stateOf k i)).1) then (sums code prev step (stateOf k i)).2
      else (sums code prev step (stateOf k i)).1) = best code prev step (stateOf k i) := by
    simp only [best, cond_eq_ite, decide_eq_true_eq]
  have hbound := slt_eq_lt (best_lt hl hprev step (stateOf k i)) hinf
  simp only [← Fin.getElem_fin, hsum1, hsum2, hbest, hbound, slt_eq_lt hb ha]
    at hsurvivor htook hreach
  refine ⟨?_, htook, hreach⟩
  rw [acsVectorAt, hsurvivor]
  cases clamp <;> simp [cond_eq_ite]

/-- The row of a step before it is masked: the predecessors of the smaller sums. -/
private theorem getElem_chosen (clamp : Bool) (dst : Fin 16) :
    (add (lowIndex code.shiftUp) (and (acsNarrowMasksSse2 (tookHigh code prev step clamp))
        (set1 (if code.shiftUp then 8 else 1))))[dst] =
      BitVec.ofNat 8 (survivor code prev step dst).val := by
  obtain ⟨hlow, hhigh⟩ := lowIndex_eq code.shiftUp dst
  have htook := getElem_narrowMasks (m := tookHigh code prev step clamp)
    (p := fun dst => decide ((sums code prev step dst).2 < (sums code prev step dst).1))
    (fun k i => by
      rw [← (acsVectorAt_lane hl hprev step clamp k i).2.1]
      fin_cases k <;> rfl) dst
  simp only [Fin.getElem_fin] at htook hlow hhigh ⊢
  rw [getElem_add, getElem_and, htook, mask_and, getElem_set1, survivor]
  by_cases h : (sums code prev step dst).2 < (sums code prev step dst).1
  · simp only [h, decide_true, cond_true, ite_true, hhigh]
  · simp only [h, decide_false, cond_false, ite_false, ← hlow]
    exact BitVec.add_zero _

theorem acsStepSse2_clamp :
    acsStepSse2 (load prev) (laneMask code) step code.lanes code.shiftUp true =
      (load (convAcsStep code prev step).1, (convAcsStep code prev step).2) := by
  refine Prod.ext (load_eq fun k i => (acsVectorAt_lane hl hprev step true k i).1) ?_
  refine Vector.ext fun dst hdst => ?_
  have hchosen := getElem_chosen hl hprev step true ⟨dst, hdst⟩
  have hreach := getElem_narrowMasks (m := reachable code prev step true)
    (p := fun dst => decide (best code prev step dst < inf))
    (fun k i => by
      rw [← (acsVectorAt_lane hl hprev step true k i).2.2 rfl]
      fin_cases k <;> rfl) ⟨dst, hdst⟩
  simp only [Fin.getElem_fin] at hchosen hreach
  show (and (acsNarrowMasksSse2 (reachable code prev step true)) (add (lowIndex code.shiftUp)
    (and (acsNarrowMasksSse2 (tookHigh code prev step true))
      (set1 (if code.shiftUp then 8 else 1)))))[dst] = _
  rw [getElem_and, hchosen, hreach, mask_and]
  simp only [convAcsStep, Vector.getElem_ofFn, cond_eq_ite, decide_eq_true_eq]

/-- A step without clamping is the scalar step where no survivor reaches the bound. -/
theorem acsStepSse2_free (hbest : ∀ dst, best code prev step dst < inf) :
    acsStepSse2 (load prev) (laneMask code) step code.lanes code.shiftUp false =
      (load (convAcsStep code prev step).1, (convAcsStep code prev step).2) := by
  refine Prod.ext (load_eq fun k i => ?_) (Vector.ext fun dst hdst => ?_)
  · rw [(acsVectorAt_lane hl hprev step false k i).1, if_pos (hbest _)]
    rfl
  · have hchosen := getElem_chosen hl hprev step false ⟨dst, hdst⟩
    simp only [Fin.getElem_fin] at hchosen
    show (add (lowIndex code.shiftUp) (and (acsNarrowMasksSse2 (tookHigh code prev step false))
      (set1 (if code.shiftUp then 8 else 1))))[dst] = _
    rw [hchosen]
    simp only [convAcsStep, Vector.getElem_ofFn, hbest, ite_true]

/-- A survivor grows by at most one branch. -/
theorem toNat_best_le (dst : Fin 16) : (best code prev step dst).toNat ≤
    prev[lowState code.shiftUp dst].toNat + code.lanes * 65535 := by
  obtain ⟨ha, -⟩ := toNat_sums hl hprev step dst
  have hbranch := (toNat_branch hl step dst).2
  simp only [best]
  split
  · rename_i h
    have := BitVec.lt_def.mp h
    omega
  · omega

end Step

/-- The scalar step keeps metrics within the bound. -/
theorem convAcsStep_le (code : ConvCode) (prev : Metrics) (step : List (BitVec 16)) (s : Fin 16) :
    ((convAcsStep code prev step).1[s]).toNat ≤ viterbiInf := by
  have hinf : inf.toNat = viterbiInf := by decide
  simp only [convAcsStep, Fin.getElem_fin, Vector.getElem_ofFn]
  split
  · rename_i h
    have := BitVec.lt_def.mp h
    omega
  · omega

theorem convAcsStep_of_lt {step : List (BitVec 16)} {s : Fin 16} (h : best code prev step s < inf) :
    (convAcsStep code prev step).1[s] = best code prev step s := by
  simp only [convAcsStep, Fin.getElem_fin, Vector.getElem_ofFn]
  exact if_pos h

/-- Below the safe limit no step needs to clamp. -/
theorem runFree_eq (hl : code.lanes ≤ 4) {nsteps : ℕ}
    (hsafe : ∀ s : Fin 16, metric[s].toNat + nsteps * code.lanes * 65535 < viterbiInf)
    (costs : List (BitVec 16)) :
    runFree (laneMask code) code.lanes code.shiftUp nsteps (load metric) costs =
      (load (convAcsRunScalar code nsteps metric costs).1,
        (convAcsRunScalar code nsteps metric costs).2) := by
  have hinf : inf.toNat = viterbiInf := by decide
  induction nsteps generalizing metric costs with
  | zero => rfl
  | succ nsteps ih =>
    have hgrowth : (nsteps + 1) * code.lanes * 65535 =
        nsteps * code.lanes * 65535 + code.lanes * 65535 := by ring
    have hle : ∀ s : Fin 16, metric[s].toNat ≤ viterbiInf := fun s => by
      have := hsafe s
      omega
    have hbest : ∀ dst, best code metric costs dst < inf := by
      intro dst
      have hlow := hsafe (lowState code.shiftUp dst)
      have hstep := toNat_best_le hl hle costs dst
      rw [BitVec.lt_def]
      omega
    have hnext : ∀ s : Fin 16, (convAcsStep code metric costs).1[s].toNat +
        nsteps * code.lanes * 65535 < viterbiInf := by
      intro s
      have hlow := hsafe (lowState code.shiftUp s)
      have hstep := toNat_best_le hl hle costs s
      rw [convAcsStep_of_lt (hbest s)]
      omega
    rw [runFree, acsStepSse2_free hl hle costs hbest, convAcsRunScalar]
    simp only [ih hnext]

/-- The test for the safe limit reads every metric. -/
theorem acsAllBelow_iff (hmetric : ∀ s : Fin 16, metric[s].toNat ≤ viterbiInf) {limit : ℕ}
    (hlimit : limit ≤ viterbiInf) :
    acsAllBelowSse2 (load metric) limit = true ↔ ∀ s : Fin 16, metric[s].toNat < limit := by
  have hinf : viterbiInf = 1073741823 := rfl
  have hbound : (BitVec.ofNat 32 limit).toNat = limit := by
    rw [BitVec.toNat_ofNat, Nat.mod_eq_of_lt (by omega)]
  have hslt : ∀ k i : Fin 4, ((load metric)[k][i]).slt (BitVec.ofNat 32 limit) =
      decide (metric[stateOf k i].toNat < limit) := by
    intro k i
    have hle := hmetric (stateOf k i)
    rw [getElem_load, slt_eq_lt (by omega) (by rw [hbound]; omega)]
    simp only [BitVec.lt_def, hbound]
  rw [acsAllBelowSse2, beq_iff_eq, movemask_eq_iff (p := fun i : Fin 4 =>
    (decide (metric[stateOf 0 i].toNat < limit) && decide (metric[stateOf 1 i].toNat < limit)) &&
      (decide (metric[stateOf 2 i].toNat < limit) && decide (metric[stateOf 3 i].toNat < limit)))
        ?_]
  · constructor
    · intro hall s
      obtain ⟨k, i, rfl⟩ := exists_stateOf s
      have hi := hall i
      simp only [Bool.and_eq_true, decide_eq_true_eq] at hi
      obtain ⟨⟨h0, h1⟩, h2, h3⟩ := hi
      fin_cases k
      · exact h0
      · exact h1
      · exact h2
      · exact h3
    · intro hall i
      simp only [hall, decide_true, Bool.and_self]
  · intro i
    have h0 := hslt 0 i
    have h1 := hslt 1 i
    have h2 := hslt 2 i
    have h3 := hslt 3 i
    simp only [Fin.getElem_fin] at h0 h1 h2 h3
    show (and (and (cmpgt _ _) (cmpgt _ _)) (and (cmpgt _ _) (cmpgt _ _)))[i.val] = _
    simp only [getElem_and, getElem_cmpgt, getElem_set1, mask_and_mask]
    exact congrArg (mask 32) (congrArg₂ _ (congrArg₂ _ h0 h1) (congrArg₂ _ h2 h3))

theorem runClamped_eq (hl : code.lanes ≤ 4) {nsteps : ℕ}
    (hmetric : ∀ s : Fin 16, metric[s].toNat ≤ viterbiInf) (costs : List (BitVec 16)) :
    runClamped (laneMask code) code.lanes code.shiftUp nsteps (load metric) costs =
      (load (convAcsRunScalar code nsteps metric costs).1,
        (convAcsRunScalar code nsteps metric costs).2) := by
  induction nsteps generalizing metric costs with
  | zero => rfl
  | succ nsteps ih =>
    have hlimit : convAcsSafeLimit (nsteps + 1) code.lanes ≤ viterbiInf := by
      simp only [convAcsSafeLimit]
      split <;> omega
    rw [runClamped]
    by_cases hbelow : acsAllBelowSse2 (load metric) (convAcsSafeLimit (nsteps + 1) code.lanes)
    · rw [if_pos hbelow]
      refine runFree_eq hl (fun s => ?_) costs
      have hs := (acsAllBelow_iff hmetric hlimit).mp hbelow s
      simp only [convAcsSafeLimit] at hs
      split at hs <;> omega
    · rw [if_neg hbelow, acsStepSse2_clamp hl hmetric costs, convAcsRunScalar]
      simp only [ih (convAcsStep_le code metric costs)]

theorem store_load (metric : Metrics) : store (load metric) = metric := by
  refine Vector.ext fun s hs => ?_
  have h := getElem_load metric ⟨s / 4, by omega⟩ ⟨s % 4, Nat.mod_lt _ (by decide)⟩
  have hstate : stateOf ⟨s / 4, by omega⟩ ⟨s % 4, Nat.mod_lt _ (by decide)⟩ = ⟨s, hs⟩ :=
    Fin.ext (Nat.div_add_mod s 4)
  simp only [store, Vector.getElem_ofFn]
  exact h.trans (congrArg metric.get hstate)

/-- From metrics within the bound the vector kernel computes what the reference does,
for any code of at most four lanes. -/
theorem convAcsRunSimd_eq (hl : code.lanes ≤ 4) (nsteps : ℕ)
    (hmetric : ∀ s : Fin 16, metric[s].toNat ≤ viterbiInf) (costs : List (BitVec 16)) :
    convAcsRunSimd code nsteps metric costs = convAcsRunScalar code nsteps metric costs := by
  rw [convAcsRunSimd, runClamped_eq hl hmetric costs]
  simp only [store_load]

/-- For both codes, any number of steps, any costs and any starting metrics within the
bound, the two kernels leave the same metrics and the same predecessor rows. -/
theorem simd_agrees_with_scalar (code : ConvCode)
    (hcode : code = signallingCode ∨ code = speechCode)
    (nsteps : ℕ) (metric : Metrics) (hmetric : ∀ s : Fin 16, metric[s].toNat ≤ viterbiInf)
    (costs : List (BitVec 16)) :
    convAcsRunSimd code nsteps metric costs = convAcsRunScalar code nsteps metric costs := by
  refine convAcsRunSimd_eq ?_ nsteps hmetric costs
  rcases hcode with rfl | rfl <;> decide

/-- The longest signalling block, from the decoder's own start. -/
theorem simd_agrees_with_scalar_start :
    convAcsRunSimd signallingCode 512 (Vector.ofFn fun s : Fin 16 => if s = 0 then 0 else inf)
        (List.replicate 2048 0x7FFF) =
      convAcsRunScalar signallingCode 512 (Vector.ofFn fun s : Fin 16 => if s = 0 then 0 else inf)
        (List.replicate 2048 0x7FFF) :=
  simd_agrees_with_scalar signallingCode (Or.inl rfl) 512 _ (by decide) _

end DsdNeo.Tetra
