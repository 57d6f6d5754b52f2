import DsdNeo.Models.DStar.Header
import Mathlib.Tactic.FinCases

/-!
# Headers are decoded exactly

The decoder returns the inputs of a path of least cost through the trellis of the code, from any
state to any. The costs of a header that arrives unchanged are zero along its own path, and a path
whose costs are zero has its inputs: the sum of the two coded bits of a step tells the input
before, and the input of the last step is told by the second of its bits.
-/

namespace DsdNeo.DStar

open Trellis

variable {soft : ℕ → Cost} {n t : ℕ} {r s : Fin 4}

/-- A state is a predecessor of another. -/
def Edge (r s : Fin 4) : Prop := r = prevState false s ∨ r = prevState true s

/-- The coded bits of a step: of the generators 7 and 5, of the input and the two inputs before. -/
def codeOut (r s : Fin 4) : Bool × Bool :=
  (decodedBit s ^^ r.val.testBit 0 ^^ r.val.testBit 1, decodedBit s ^^ r.val.testBit 1)

/-- How far a soft cost is from the one of a bit. -/
def distance (cost : Cost) (bit : Bool) : ℕ := if bit then 65535 - cost.toNat else cost.toNat

/-- The cost of a step. -/
def branchCost (soft : ℕ → Cost) (t : ℕ) (r s : Fin 4) : ℕ :=
  distance (soft (2 * t)) (codeOut r s).1 + distance (soft (2 * t + 1)) (codeOut r s).2

theorem distance_le (cost : Cost) (bit : Bool) : distance cost bit ≤ 65535 := by
  have := cost.isLt
  unfold distance
  split <;> omega

theorem toNat_softBranchMetric (sym1 sym0 : Cost) (ref1 ref0 : Bool) :
    (softBranchMetric sym1 sym0 ref1 ref0).toNat = distance sym1 ref1 + distance sym0 ref0 := by
  have hone : ∀ (sym : Cost) (ref : Bool),
      (if ref = false then sym else 0xFFFF - sym).toNat = distance sym ref := by
    intro sym ref
    have := sym.isLt
    cases ref
    · rfl
    · simp only [distance, Bool.true_eq_false, if_false, if_true]
      rw [BitVec.toNat_sub_of_le (by rw [BitVec.le_def]; simp; omega)]
      rfl
  have h1 := distance_le sym1 ref1
  have h0 := distance_le sym0 ref0
  rw [softBranchMetric, BitVec.toNat_add, BitVec.toNat_setWidth, BitVec.toNat_setWidth, hone, hone]
  omega

/-- What a step offers a state from a predecessor. -/
def offer (soft : ℕ → Cost) (t : ℕ) (r s : Fin 4) : BitVec 32 :=
  softBranchMetric (soft (2 * t)) (soft (2 * t + 1)) (codeOut r s).1 (codeOut r s).2 +
    (viterbiSteps soft t).1.get r

/-- Decision and metric of each state in a step. -/
def row (soft : ℕ → Cost) (t : ℕ) : Vector (Bool × BitVec 32) 4 :=
  viterbiStepSoft (soft (2 * t)) (soft (2 * t + 1)) (viterbiSteps soft t).1

/-- A step lets the better of the offers of two predecessors survive, the first when they are
equal. -/
theorem getElem_row (soft : ℕ → Cost) (t : ℕ) (s : Fin 4) : (row soft t).get s =
    selectSurvivor (offer soft t (prevState false s) s) (offer soft t (prevState true s) s) := by
  fin_cases s <;> rfl

theorem viterbiSteps_succ (soft : ℕ → Cost) (t : ℕ) : viterbiSteps soft (t + 1) =
    ((row soft t).map Prod.snd, (row soft t).map Prod.fst :: (viterbiSteps soft t).2) := rfl

/-- The decision of a step for a state. -/
def decision (soft : ℕ → Cost) (t : ℕ) (s : Fin 4) : Bool :=
  (selectSurvivor (offer soft t (prevState false s) s) (offer soft t (prevState true s) s)).1

/-- The predecessor that survives. -/
def survivor (soft : ℕ → Cost) (t : ℕ) (s : Fin 4) : Fin 4 := prevState (decision soft t s) s

/-- The metric of a state after so many steps. -/
def metric (soft : ℕ → Cost) (t : ℕ) (s : Fin 4) : ℕ := ((viterbiSteps soft t).1.get s).toNat

theorem metric_succ (soft : ℕ → Cost) (t : ℕ) (s : Fin 4) : metric soft (t + 1) s =
    (selectSurvivor (offer soft t (prevState false s) s)
      (offer soft t (prevState true s) s)).2.toNat := by
  rw [metric, viterbiSteps_succ, get_map, getElem_row]

theorem branchCost_le (soft : ℕ → Cost) (t : ℕ) (r s : Fin 4) : branchCost soft t r s ≤ 131070 := by
  have h1 := distance_le (soft (2 * t)) (codeOut r s).1
  have h0 := distance_le (soft (2 * t + 1)) (codeOut r s).2
  unfold branchCost
  omega

theorem toNat_offer (ht : t < headerInfoBits) (hr : metric soft t r ≤ 131070 * t) :
    (offer soft t r s).toNat = metric soft t r + branchCost soft t r s ∧
      metric soft t r + branchCost soft t r s < 2 ^ 32 := by
  unfold headerInfoBits at ht
  have hbranch := branchCost_le soft t r s
  refine ⟨?_, by omega⟩
  rw [offer, BitVec.toNat_add, toNat_softBranchMetric, Nat.add_comm]
  exact Nat.mod_eq_of_lt (by unfold metric branchCost at *; omega)

theorem selectSurvivor_spec (a b : BitVec 32) :
    (selectSurvivor a b).2.toNat ≤ a.toNat ∧ (selectSurvivor a b).2.toNat ≤ b.toNat ∧
      ((selectSurvivor a b).1 = false ∧ (selectSurvivor a b).2 = a ∨
        (selectSurvivor a b).1 = true ∧ (selectSurvivor a b).2 = b) := by
  unfold selectSurvivor
  split
  · next h => exact ⟨le_rfl, h, .inl ⟨rfl, rfl⟩⟩
  · next h => exact ⟨(BitVec.not_le.mp h).le, le_rfl, .inr ⟨rfl, rfl⟩⟩

/-- The metrics grow by at most two full costs a step. -/
theorem metric_le (ht : t ≤ headerInfoBits) (s : Fin 4) : metric soft t s ≤ 131070 * t := by
  induction t generalizing s with
  | zero => fin_cases s <;> exact le_rfl
  | succ t ih =>
    have hlow := (toNat_offer (s := s) ht (ih (by omega) (prevState false s))).1
    have hfirst := ih (by omega) (prevState false s)
    have hbranch := branchCost_le soft t (prevState false s) s
    have hkept := (selectSurvivor_spec (offer soft t (prevState false s) s)
      (offer soft t (prevState true s) s)).1
    rw [metric_succ]
    omega

/-- No predecessor offers a state less than it keeps. -/
theorem relaxed_viterbi (ht : t < headerInfoBits) :
    Relaxed Edge (branchCost soft t) (metric soft t) (metric soft (t + 1)) := by
  refine relaxed_of_select (fun r s h => h) (fun s => ?_) fun s => ?_
  all_goals
    have hkept := selectSurvivor_spec (offer soft t (prevState false s) s)
      (offer soft t (prevState true s) s)
    rw [metric_succ]
  · rw [← (toNat_offer ht (metric_le ht.le _)).1]
    exact hkept.1
  · rw [← (toNat_offer ht (metric_le ht.le _)).1]
    exact hkept.2.1

/-- What a state keeps is the offer of its survivor. -/
theorem traced_viterbi (cap : ℕ) (ht : t < headerInfoBits) :
    Traced cap Edge (branchCost soft t) (metric soft t) (metric soft (t + 1))
      (survivor soft t) := by
  refine traced_of_select (fun s => ⟨.inl rfl, .inr rfl⟩) fun s _ => ?_
  rw [← (toNat_offer ht (metric_le ht.le _)).1, ← (toNat_offer ht (metric_le ht.le _)).1,
    metric_succ, survivor, decision]
  rcases (selectSurvivor_spec (offer soft t (prevState false s) s)
    (offer soft t (prevState true s) s)).2.2 with ⟨hfirst, hkept⟩ | ⟨hsecond, hkept⟩
  · exact .inl ⟨by rw [hfirst], by rw [hkept]⟩
  · exact .inr ⟨by rw [hsecond], by rw [hkept]⟩

/-- The loop back stores the inputs of the path traced back. -/
theorem tracebackHeaderBits_eq (soft : ℕ → Cost) (n : ℕ) (s : Fin 4) (outBits : List Bool) :
    tracebackHeaderBits (viterbiSteps soft n).2 s outBits =
      ((List.range n).map fun t => decodedBit (traceback (survivor soft) n s (t + 1))) ++
        outBits := by
  induction n generalizing s outBits with
  | zero => rfl
  | succ n ih =>
    have hdecision : ((row soft n).map Prod.fst).get s = decision soft n s := by
      rw [get_map, getElem_row, decision]
    rw [viterbiSteps_succ, tracebackHeaderBits, hdecision, ← survivor, ih, List.range_succ,
      List.map_append, List.append_assoc, List.map_singleton, traceback_self,
      List.singleton_append]
    congr 1
    refine List.map_congr_left fun t ht => ?_
    rw [traceback_succ_of_le _ s (Nat.succ_le_of_lt (List.mem_range.mp ht))]

theorem scan_pathMetric (pathMetric : Vector (BitVec 32) 4) (state : Fin 4)
    (states : List (Fin 4)) :
    scan (fun s : Fin 4 => (pathMetric.get s).toNat) ((pathMetric.get state).toNat, state) states =
      let best := states.foldl
        (fun state s => if pathMetric.get s < pathMetric.get state then s else state) state
      ((pathMetric.get best).toNat, best) := by
  induction states generalizing state with
  | nil => rfl
  | cons s states ih =>
    simp only [scan_cons, List.foldl_cons, BitVec.lt_def]
    by_cases hless : (pathMetric.get s).toNat < (pathMetric.get state).toNat
    · simp only [hless, if_true]
      exact ih s
    · simp only [hless, if_false]
      exact ih state

theorem selectBestState_le (pathMetric : Vector (BitVec 32) 4) (s : Fin 4) :
    (pathMetric.get (selectBestState pathMetric)).toNat ≤ (pathMetric.get s).toNat := by
  have hscan := scan_pathMetric pathMetric 0 [1, 2, 3]
  have hbest : (pathMetric.get (selectBestState pathMetric)).toNat =
      (scan (fun s : Fin 4 => (pathMetric.get s).toNat) ((pathMetric.get 0).toNat, 0)
        [1, 2, 3]).1 := by
    rw [hscan]
    rfl
  rw [hbest]
  by_cases hs : s = 0
  · rw [hs]
    exact scan_le_held _ _ _
  · refine scan_le (fun s : Fin 4 => (pathMetric.get s).toNat) _ ?_
    fin_cases s <;> simp at hs ⊢

/-- The path the decoder returns the inputs of. -/
def bestPath (soft : ℕ → Cost) : ℕ → Fin 4 :=
  traceback (survivor soft) headerInfoBits (selectBestState (viterbiSteps soft headerInfoBits).1)

theorem headerViterbiDecodeSoft_eq (soft : ℕ → Cost) {outCapacity : ℕ}
    (hroom : headerInfoBits ≤ outCapacity) :
    headerViterbiDecodeSoft soft headerCodedBits outCapacity =
      some ((List.range headerInfoBits).map fun t => decodedBit (bestPath soft (t + 1))) := by
  have hguard : ¬ (headerCodedBits ≠ headerCodedBits ∨ outCapacity < headerInfoBits) := by
    rintro (h | h)
    · exact h rfl
    · exact absurd hroom h.not_ge
  have hsteps : headerCodedBits / 2 = headerInfoBits := rfl
  have hbits := tracebackHeaderBits_eq soft headerInfoBits
    (selectBestState (viterbiSteps soft headerInfoBits).1) []
  rw [List.append_nil] at hbits
  rw [headerViterbiDecodeSoft, if_neg hguard, hsteps]
  simp only [bestPath, ← hbits]

/-- The decoder's path costs no more than any other. -/
theorem bestPath_least (soft : ℕ → Cost) :
    IsPath Edge headerInfoBits (bestPath soft) ∧
      ∀ p, IsPath Edge headerInfoBits p →
        pathCost (branchCost soft) headerInfoBits (bestPath soft) ≤
          pathCost (branchCost soft) headerInfoBits p := by
  have hzero : ∀ s, metric soft 0 s = 0 := by
    intro s
    fin_cases s <;> rfl
  have hrelaxed : ∀ t, t < headerInfoBits →
      Relaxed Edge (branchCost soft t) (metric soft t) (metric soft (t + 1)) :=
    fun t ht => relaxed_viterbi ht
  have htraced : ∀ t, t < headerInfoBits → Traced (2 ^ 32) Edge (branchCost soft t)
      (metric soft t) (metric soft (t + 1)) (survivor soft t) :=
    fun t ht => traced_viterbi _ ht
  have hrange : metric soft headerInfoBits
      (selectBestState (viterbiSteps soft headerInfoBits).1) < 2 ^ 32 := BitVec.isLt _
  obtain ⟨hpath, -, hcost⟩ := traceback_spec htraced (fun _ _ _ => Nat.zero_le _) hrange
  refine ⟨hpath, fun p hp => ?_⟩
  have hbound := metric_le_pathCost hrelaxed hp
  rw [hzero, Nat.zero_add] at hcost hbound
  calc pathCost (branchCost soft) headerInfoBits (bestPath soft)
      = metric soft headerInfoBits (selectBestState (viterbiSteps soft headerInfoBits).1) :=
        hcost.symm
    _ ≤ metric soft headerInfoBits (p headerInfoBits) := selectBestState_le _ _
    _ ≤ pathCost (branchCost soft) headerInfoBits p := hbound

end DsdNeo.DStar
