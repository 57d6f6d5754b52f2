import DsdNeo.Core.Trellis.Scan
import DsdNeo.Models.Fec.Trellis34
import Mathlib.Algebra.BigOperators.Fin

/-!
# The single half-rate decoder

`p25_12_soft_llr` of `p25_12.c`. The soft values of a block are brought into the order of the
trellis two by two, and each of 49 steps scans the four predecessors of every state. The cost of a
path is stated over the values as they were received: each of the 196 is charged where it disagrees
with the bit the path sends at its place.
-/

namespace DsdNeo.P25.HalfRate

open Trellis Trellis34

/-- `p25_dtm`. -/
def p25Dtm : List ℕ := [2, 12, 1, 15, 14, 0, 13, 3, 9, 7, 10, 4, 5, 11, 6, 8]

/-- `p25_llr_bit_cost`. The negation is made in `int` and stored in `uint32_t`. -/
def llrBitCost (llr : Int16) (expectedBit : Bool) : ℕ :=
  if expectedBit then if llr.toInt < 0 then ((-llr.toInt) % 2 ^ 32).toNat else 0
  else if 0 < llr.toInt then llr.toInt.toNat else 0

/-- `llr_dei`, the two values of a dibit together. -/
def llrDei (bitLlr196 : Fin 196 → Int16) : List (Int16 × Int16) :=
  deinterleave (0, 0) fun i =>
    (bitLlr196 ⟨i.val * 2, by omega⟩, bitLlr196 ⟨i.val * 2 + 1, by omega⟩)

/-- Transition nibble from one state to another. -/
def expect (stPrev stNext : Fin 4) : ℕ := p25Dtm.getD (stPrev.val <<< 2 ||| stNext.val) 0 &&& 0xF

/-- Cost of the four values of a step against a nibble, exactly. -/
def nibbleCost (first second : Int16 × Int16) (expect : ℕ) : ℕ :=
  llrBitCost first.1 (expect.testBit 3) + llrBitCost first.2 (expect.testBit 2) +
    llrBitCost second.1 (expect.testBit 1) + llrBitCost second.2 (expect.testBit 0)

/-- Cost of a transition at step `i`, exactly. -/
def transitionCost (llrDei : List (Int16 × Int16)) (i : ℕ) (stPrev stNext : Fin 4) : ℕ :=
  nibbleCost (llrDei.getD (i * 2) (0, 0)) (llrDei.getD (i * 2 + 1) (0, 0)) (expect stPrev stNext)

/-- One turn of the step loop. The sums are made in `uint32_t`. -/
def softLlrSweep (llrDei : List (Int16 × Int16)) (i : ℕ) : Sweep 4 := fun prevMetric =>
  List.Vector.ofFn fun stNext =>
    scan (fun stPrev =>
      (prevMetric.get stPrev + transitionCost llrDei i stPrev stNext % 2 ^ 32) % 2 ^ 32)
      (0xFFFFFFFF, 0) (List.finRange 4)

/-- Bias of a start state. -/
def startBias (j : Fin 4) : ℕ := if j = 0 then 0 else 256

/-- Metrics and pointers after `n` steps, `stale` being what the pointers held before. -/
def softLlrSurvivors (stale : ℕ → Fin 4 → Fin 4) (bitLlr196 : Fin 196 → Int16) (n : ℕ) :
    Survivors 4 :=
  Survivors.run (softLlrSweep (llrDei bitLlr196)) ⟨List.Vector.ofFn startBias, stale⟩ n

/-- Four states to a byte, of the first 48. -/
def packTdibits (tdibits : List (Fin 4)) : List ℕ :=
  (List.range 12).map fun i =>
    ((tdibits.getD (i * 4) 0).val <<< 6 ||| (tdibits.getD (i * 4 + 1) 0).val <<< 4 |||
      (tdibits.getD (i * 4 + 2) 0).val <<< 2 ||| (tdibits.getD (i * 4 + 3) 0).val) % 2 ^ 8

/-- The best ending state and its metric. -/
def softLlrBest (currMetric : Metrics 4) : ℕ × Fin 4 :=
  scan currMetric.get (currMetric.get 0, 0) [1, 2, 3]

/-- `p25_12_soft_llr`: the bytes and the value returned. -/
def softLlr (stale : ℕ → Fin 4 → Fin 4) (bitLlr196 : Fin 196 → Int16) : List ℕ × ℕ :=
  let v := softLlrSurvivors stale bitLlr196 49
  let best := softLlrBest v.metric
  (packTdibits (statesBack v.back 49 best.2 []), best.1 >>> 8)

/-- Bit that a path sends as value `k` of the block. -/
def sentBit (path : ℕ → Fin 4) (k : Fin 196) : Bool :=
  let p := (place ⟨k.val / 2, by omega⟩).val
  (expect (path (p / 2)) (path (p / 2 + 1))).testBit (3 - (p % 2 * 2 + k.val % 2))

/-- Total disagreement of a path with the values received. -/
def disagreement (bitLlr196 : Fin 196 → Int16) (path : ℕ → Fin 4) : ℕ :=
  ∑ k, llrBitCost (bitLlr196 k) (sentBit path k)

/-- Cost of one dibit, by its place in the order of the trellis. -/
def dibitCost (llrDei : List (Int16 × Int16)) (path : ℕ → Fin 4) (p : ℕ) : ℕ :=
  let e := expect (path (p / 2)) (path (p / 2 + 1))
  llrBitCost (llrDei.getD p (0, 0)).1 (e.testBit (3 - p % 2 * 2)) +
    llrBitCost (llrDei.getD p (0, 0)).2 (e.testBit (3 - (p % 2 * 2 + 1)))

theorem disagreement_eq_dibits (bitLlr196 : Fin 196 → Int16) (path : ℕ → Fin 4) :
    disagreement bitLlr196 path =
      ∑ i : Fin 98, dibitCost (llrDei bitLlr196) path (place i).val := by
  rw [disagreement, ← (finProdFinEquiv (m := 98) (n := 2)).sum_comp, Fintype.sum_prod_type]
  refine Finset.sum_congr rfl fun i _ => ?_
  have hdei := getD_deinterleave (0, 0) (fun i : Fin 98 =>
    (bitLlr196 ⟨i.val * 2, by omega⟩, bitLlr196 ⟨i.val * 2 + 1, by omega⟩)) i
  have hfirst : finProdFinEquiv (i, (0 : Fin 2)) = ⟨i.val * 2, by omega⟩ := by
    apply Fin.ext
    simp only [finProdFinEquiv_apply_val, Fin.val_zero]
    omega
  have hsecond : finProdFinEquiv (i, (1 : Fin 2)) = ⟨i.val * 2 + 1, by omega⟩ := by
    apply Fin.ext
    simp only [finProdFinEquiv_apply_val, Fin.val_one]
    omega
  have heven : i.val * 2 / 2 = i.val ∧ i.val * 2 % 2 = 0 := by omega
  have hodd : (i.val * 2 + 1) / 2 = i.val ∧ (i.val * 2 + 1) % 2 = 1 := by omega
  rw [Fin.sum_univ_two, hfirst, hsecond]
  simp only [sentBit, heven, hodd, Nat.add_zero, dibitCost, llrDei, hdei]

theorem sum_range_two_mul (f : ℕ → ℕ) (n : ℕ) :
    ∑ p ∈ Finset.range (2 * n), f p = ∑ t ∈ Finset.range n, (f (2 * t) + f (2 * t + 1)) := by
  induction n with
  | zero => rfl
  | succ n ih =>
    rw [Nat.mul_succ, Finset.sum_range_succ, Finset.sum_range_succ, ih, Finset.sum_range_succ,
      Nat.add_assoc]

theorem dibitCost_add (llrDei : List (Int16 × Int16)) (path : ℕ → Fin 4) (t : ℕ) :
    dibitCost llrDei path (2 * t) + dibitCost llrDei path (2 * t + 1) =
      transitionCost llrDei t (path t) (path (t + 1)) := by
  have h0 : 2 * t / 2 = t := by omega
  have h1 : (2 * t + 1) / 2 = t := by omega
  have h2 : 2 * t % 2 = 0 := by omega
  have h3 : (2 * t + 1) % 2 = 1 := by omega
  simp only [dibitCost, transitionCost, nibbleCost, h0, h1, h2, h3, Nat.mul_comm t 2,
    Nat.reduceMul, Nat.reduceAdd, Nat.reduceSub, Nat.add_assoc]

theorem disagreement_eq_pathCost (bitLlr196 : Fin 196 → Int16) (path : ℕ → Fin 4) :
    disagreement bitLlr196 path = pathCost (transitionCost (llrDei bitLlr196)) 49 path := by
  rw [disagreement_eq_dibits, place_bijective.sum_comp fun p : Fin 98 =>
    dibitCost (llrDei bitLlr196) path p.val,
    Fin.sum_univ_eq_sum_range (dibitCost (llrDei bitLlr196) path) 98,
    show 98 = 2 * 49 by rfl, sum_range_two_mul, pathCost]
  exact Finset.sum_congr rfl fun t _ => dibitCost_add _ _ _

theorem llrBitCost_le (llr : Int16) (expectedBit : Bool) : llrBitCost llr expectedBit ≤ 32768 := by
  have hlow := llr.le_toInt
  have hhigh := llr.toInt_lt
  cases expectedBit <;> simp only [llrBitCost] <;> split <;> split <;> omega

theorem transitionCost_le (llrDei : List (Int16 × Int16)) (i : ℕ) (stPrev stNext : Fin 4) :
    transitionCost llrDei i stPrev stNext ≤ 131072 := by
  have hbits := fun llr : Int16 => fun b => llrBitCost_le llr b
  simp only [transitionCost, nibbleCost]
  have h0 := hbits (llrDei.getD (i * 2) (0, 0)).1 ((expect stPrev stNext).testBit 3)
  have h1 := hbits (llrDei.getD (i * 2) (0, 0)).2 ((expect stPrev stNext).testBit 2)
  have h2 := hbits (llrDei.getD (i * 2 + 1) (0, 0)).1 ((expect stPrev stNext).testBit 1)
  have h3 := hbits (llrDei.getD (i * 2 + 1) (0, 0)).2 ((expect stPrev stNext).testBit 0)
  omega

/-- Where the sums stay in range a turn scans the predecessors, and none of them wraps. -/
theorem softLlrSweep_scans {llrDei : List (Int16 × Int16)} {i : ℕ} (hi : i < 49) {old : Metrics 4}
    (hold : ∀ r, old.get r ≤ 256 + 131072 * i) :
    Scans (transitionCost llrDei i) 0xFFFFFFFF (softLlrSweep llrDei i) old := by
  intro s
  refine ⟨0, ?_⟩
  rw [softLlrSweep, List.Vector.get_ofFn]
  congr 1
  funext r
  have hcost := transitionCost_le llrDei i r s
  have hr := hold r
  rw [Nat.mod_eq_of_lt (a := transitionCost llrDei i r s) (by omega), Nat.mod_eq_of_lt (by omega)]

section Run

variable (stale : ℕ → Fin 4 → Fin 4) (bitLlr196 : Fin 196 → Int16)

/-- The metrics grow by at most one transition a step. -/
theorem metric_le {n : ℕ} (hn : n ≤ 49) (s : Fin 4) :
    (softLlrSurvivors stale bitLlr196 n).metric.get s ≤ 256 + 131072 * n := by
  induction n generalizing s with
  | zero =>
    rw [softLlrSurvivors, Survivors.run_zero, List.Vector.get_ofFn, startBias]
    split <;> omega
  | succ n ih =>
    have hscan : Scans (transitionCost (llrDei bitLlr196) n) 0xFFFFFFFF
        (softLlrSweep (llrDei bitLlr196) n) (softLlrSurvivors stale bitLlr196 n).metric :=
      softLlrSweep_scans (by omega) (ih (by omega))
    obtain ⟨held, heq⟩ := hscan s
    have hle := scan_le (fun r => (softLlrSurvivors stale bitLlr196 n).metric.get r +
      transitionCost (llrDei bitLlr196) n r s) (0xFFFFFFFF, held) (List.mem_finRange s)
    have hcost := transitionCost_le (llrDei bitLlr196) n s s
    have hprev := ih (by omega) s
    rw [softLlrSurvivors, Survivors.get_metric_run_succ, ← softLlrSurvivors, heq]
    omega

theorem scans_run (t : ℕ) (ht : t < 49) :
    Scans (transitionCost (llrDei bitLlr196) t) 0xFFFFFFFF (softLlrSweep (llrDei bitLlr196) t)
      (softLlrSurvivors stale bitLlr196 t).metric :=
  softLlrSweep_scans ht (metric_le stale bitLlr196 ht.le)

end Run

/-- The best ending state has the least of the four metrics. -/
theorem softLlrBest_spec (currMetric : Metrics 4) :
    (softLlrBest currMetric).1 = currMetric.get (softLlrBest currMetric).2 ∧
      ∀ s, (softLlrBest currMetric).1 ≤ currMetric.get s := by
  constructor
  · rcases scan_attained currMetric.get (currMetric.get 0, 0) [1, 2, 3] with hkept | ⟨-, hoffer⟩
    · rw [softLlrBest, hkept]
    · exact hoffer
  · intro s
    by_cases hs : s = 0
    · subst s
      exact scan_le_held _ _ _
    · refine scan_le _ _ ?_
      revert s
      decide

/-- The half-rate decoder is maximum-likelihood: its bytes are the first 48 states of a path
whose bias and disagreement are least among all paths, the value returned is that cost
without its low byte, and no sum of a step leaves the range of the metrics. -/
theorem softLlr_maximum_likelihood (stale : ℕ → Fin 4 → Fin 4) (bitLlr196 : Fin 196 → Int16) :
    (∃ path : ℕ → Fin 4,
      (softLlr stale bitLlr196).1 = packTdibits ((List.range 49).map fun t => path (t + 1)) ∧
      (softLlr stale bitLlr196).2 = (startBias (path 0) + disagreement bitLlr196 path) >>> 8 ∧
      ∀ other : ℕ → Fin 4, startBias (path 0) + disagreement bitLlr196 path ≤
        startBias (other 0) + disagreement bitLlr196 other) ∧
    ∀ t, t < 49 → ∀ r s,
      (softLlrSurvivors stale bitLlr196 t).metric.get r +
        transitionCost (llrDei bitLlr196) t r s < 2 ^ 32 := by
  constructor
  · obtain ⟨hattained, hleast⟩ := softLlrBest_spec (softLlrSurvivors stale bitLlr196 49).metric
    have hscan := scans_run stale bitLlr196
    have hbound := metric_le stale bitLlr196 le_rfl
      (softLlrBest (softLlrSurvivors stale bitLlr196 49).metric).2
    obtain ⟨-, hcost⟩ := traceback_scans hscan
      (s := (softLlrBest (softLlrSurvivors stale bitLlr196 49).metric).2)
      (hbound.trans_lt (by decide))
    rw [← softLlrSurvivors, ← hattained, List.Vector.get_ofFn, ← disagreement_eq_pathCost] at hcost
    refine ⟨traceback (softLlrSurvivors stale bitLlr196 49).back 49
      (softLlrBest (softLlrSurvivors stale bitLlr196 49).metric).2, ?_, ?_, ?_⟩
    · rw [softLlr, statesBack_eq, List.append_nil]
    · rw [← hcost]
      rfl
    · intro other
      have hother := metric_run_le_pathCost hscan other
      rw [List.Vector.get_ofFn, ← disagreement_eq_pathCost, ← softLlrSurvivors] at hother
      rw [← hcost]
      exact (hleast (other 49)).trans hother
  · intro t ht r s
    have hmetric := metric_le stale bitLlr196 ht.le r
    have hcost := transitionCost_le (llrDei bitLlr196) t r s
    omega

end DsdNeo.P25.HalfRate
