import DsdNeo.Core.Trellis.Separation
import DsdNeo.Models.Tetra.Fec

/-!
# The signalling code and its decoder

The rate-1/4 mother code as a linear code on its sixteen states, and the decoder
over it: the clamped step of the reference is relaxed and traced below the bound,
the start admits state zero alone, and the final metric of a flushed word stays
below the bound. Costs that separate the word sent therefore decode to its inputs,
with either kernel.
-/

namespace DsdNeo.Tetra

open Trellis List

/-- Coded bits of one step: the sums the taps select. -/
def signallingOut (s : Fin 16) (b : Bool) : List Bool :=
  signallingCode.taps.map fun taps =>
    parity5 (BitVec.ofNat 8 ((b.toNat <<< 4 ||| s.val) &&& taps)) == 1

/-- Successor state of the signalling code. -/
def signallingNext (s : Fin 16) (b : Bool) : Fin 16 :=
  Fin.ofNat 16 (convNextState signallingCode s.val b.toNat)

/-- Input recorded in a state. -/
def signallingInput (s : Fin 16) : Bool := convInputOf signallingCode s.val == 1

/-- The mother code as a linear code. -/
def signalling : LinearCode 16 where
  next := signallingNext
  out := signallingOut
  diff r s := ⟨(r.val ^^^ s.val) % 16, xor_lt r s⟩
  zero := 0
  table :=
    [[(0, false, [false, false, false, false]),
      (8, false, [true, true, true, true])],
     [(0, true, [true, true, true, true]),
      (8, true, [false, false, false, false])],
     [(1, false, [true, false, true, true]),
      (9, false, [false, true, false, false])],
     [(1, true, [false, true, false, false]),
      (9, true, [true, false, true, true])],
     [(2, false, [false, true, true, false]),
      (10, false, [true, false, false, true])],
     [(2, true, [true, false, false, true]),
      (10, true, [false, true, true, false])],
     [(3, false, [true, true, false, true]),
      (11, false, [false, false, true, false])],
     [(3, true, [false, false, true, false]),
      (11, true, [true, true, false, true])],
     [(4, false, [false, true, false, true]),
      (12, false, [true, false, true, false])],
     [(4, true, [true, false, true, false]),
      (12, true, [false, true, false, true])],
     [(5, false, [true, true, true, false]),
      (13, false, [false, false, false, true])],
     [(5, true, [false, false, false, true]),
      (13, true, [true, true, true, false])],
     [(6, false, [false, false, true, true]),
      (14, false, [true, true, false, false])],
     [(6, true, [true, true, false, false]),
      (14, true, [false, false, true, true])],
     [(7, false, [true, false, false, false]),
      (15, false, [false, true, true, true])],
     [(7, true, [false, true, true, true]),
      (15, true, [true, false, false, false])]]
  mem_table := by decide
  length_table := rfl
  diff_self := by decide
  next_diff := by decide
  out_diff := by decide

theorem signallingInput_next (r : Fin 16) (b : Bool) :
    signallingInput (signalling.next r b) = b := by
  revert r b
  decide

theorem signalling_edge_iff (r s : Fin 16) : signalling.Edge signallingInput r s ↔
    r = lowState true s ∨ r = highState true s := by
  revert r s
  decide

/-- The table of incoming words spells the lower edges, and the higher ones are their
complements. -/
private theorem incoming_eq (dst : Fin 16) :
    signallingOut (highState true dst) (signallingInput dst) =
        (signallingOut (lowState true dst) (signallingInput dst)).map not ∧
      ∀ lane : Fin 4, ((signallingCode.incoming.get dst >>> lane.val) &&& 1 ≠ 0 ↔
        (signallingOut (lowState true dst) (signallingInput dst)).getD lane.val false = true) := by
  revert dst
  decide

/-- Four zero inputs clear the register. -/
theorem signalling_flush (s : Fin 16) (u : ℕ → Bool) (t : ℕ) (h : ∀ i, i < 4 → u (t + i) = false) :
    signalling.states s u (t + 4) = 0 := by
  have hfour : ∀ r : Fin 16, signallingNext (signallingNext (signallingNext
      (signallingNext r false) false) false) false = 0 := by decide
  show signallingNext (signallingNext (signallingNext (signallingNext _ _) _) _) _ = 0
  rw [h 3 (by omega), h 2 (by omega), h 1 (by omega), show u t = false from h 0 (by omega)]
  exact hfour _

/-- Prices of the costs of step `t`. -/
def pricesAt (costs : List (BitVec 16)) (t : ℕ) : List (ℕ × ℕ) :=
  lanePrices 65535 (stepOf 4 t (costs.map BitVec.toNat))

theorem toNat_laneBranch (code : ConvCode) (cost : BitVec 16) (lane : ℕ) (dst : Fin 16) :
    (laneBranch code cost lane dst).toNat =
      if (code.incoming.get dst >>> lane) &&& 1 ≠ 0 then 65535 - cost.toNat else cost.toNat := by
  have hcost := cost.isLt
  simp only [laneBranch]
  split
  · rw [BitVec.toNat_sub_of_le (by rw [BitVec.le_def]; simp; omega)]
    simp
    omega
  · simp
    omega

theorem stepOf_costs {costs : List (BitVec 16)} {t n : ℕ} (hlen : costs.length = 4 * n)
    (ht : t < n) :
    stepOf 4 t (costs.map BitVec.toNat) =
      [(costAt (costs.drop (4 * t)) 0).toNat, (costAt (costs.drop (4 * t)) 1).toNat,
        (costAt (costs.drop (4 * t)) 2).toNat, (costAt (costs.drop (4 * t)) 3).toNat] := by
  have hget : ∀ i, i < 4 → (stepOf 4 t (costs.map BitVec.toNat))[i]? =
      some (costAt (costs.drop (4 * t)) i).toNat := by
    intro i hi
    rw [getElem?_stepOf hi, getElem?_map, costAt, getD_eq_getElem?_getD,
      getElem?_drop, getElem?_eq_getElem (by omega)]
    rfl
  apply ext_getElem?
  intro i
  rcases i with _ | _ | _ | _ | i
  · exact hget 0 (by omega)
  · exact hget 1 (by omega)
  · exact hget 2 (by omega)
  · exact hget 3 (by omega)
  · rw [getElem?_eq_none (by rw [length_stepOf (n := n) (by simpa using hlen) ht]; omega)]
    rfl

theorem branch_prices {costs : List (BitVec 16)} {t n : ℕ} (hlen : costs.length = 4 * n)
    (ht : t < n)
    (dst : Fin 16) :
    signalling.branch signallingInput (pricesAt costs t) (lowState true dst) dst =
        (branch signallingCode (costs.drop (4 * t)) dst).toNat ∧
      signalling.branch signallingInput (pricesAt costs t) (highState true dst) dst =
        4 * 65535 - (branch signallingCode (costs.drop (4 * t)) dst).toNat := by
  obtain ⟨hhigh, hbits⟩ := incoming_eq dst
  obtain ⟨b0, b1, b2, b3, hlow⟩ : ∃ b0 b1 b2 b3 : Bool,
      signallingOut (lowState true dst) (signallingInput dst) = [b0, b1, b2, b3] :=
    ⟨_, _, _, _, rfl⟩
  rw [hlow] at hhigh hbits
  have h0 : (signallingCode.incoming.get dst >>> 0) &&& 1 ≠ 0 ↔ b0 = true := hbits 0
  have h1 : (signallingCode.incoming.get dst >>> 1) &&& 1 ≠ 0 ↔ b1 = true := hbits 1
  have h2 : (signallingCode.incoming.get dst >>> 2) &&& 1 ≠ 0 ↔ b2 = true := hbits 2
  have h3 : (signallingCode.incoming.get dst >>> 3) &&& 1 ≠ 0 ↔ b3 = true := hbits 3
  obtain ⟨hsum, -⟩ := @toNat_branch signallingCode (by decide) (costs.drop (4 * t)) dst
  have hc0 := (costAt (costs.drop (4 * t)) 0).isLt
  have hc1 := (costAt (costs.drop (4 * t)) 1).isLt
  have hc2 := (costAt (costs.drop (4 * t)) 2).isLt
  have hc3 := (costAt (costs.drop (4 * t)) 3).isLt
  rw [show signallingCode.lanes = 4 from rfl] at hsum
  simp only [Finset.sum_range_succ, Finset.sum_range_zero, Nat.zero_add, toNat_laneBranch,
    h0, h1, h2, h3] at hsum
  rw [LinearCode.branch, LinearCode.branch, show signalling.out = signallingOut from rfl, hlow,
    hhigh, pricesAt, stepOf_costs hlen ht, hsum]
  simp only [laneCost, lanePrices, map_cons, map_nil, zipWith_cons_cons,
    zipWith_nil_right, sum_cons, sum_nil, cond_eq_ite]
  cases b0 <;> cases b1 <;> cases b2 <;> cases b3 <;>
    simp only [Bool.not_true, Bool.not_false, Bool.false_eq_true, ite_true, ite_false] <;> omega

theorem toNat_best (code : ConvCode) (prev : Metrics) (step : List (BitVec 16)) (dst : Fin 16) :
    (best code prev step dst).toNat =
      min (sums code prev step dst).1.toNat (sums code prev step dst).2.toNat := by
  simp only [best]
  split
  · rename_i h
    exact (min_eq_right (BitVec.lt_def.mp h).le).symm
  · rename_i h
    exact (min_eq_left (Nat.le_of_not_lt fun hlt => h (BitVec.lt_def.mpr hlt))).symm

/-- Metrics of the reference after `t` steps. -/
def scalarAt (code : ConvCode) (metric : Metrics) (costs : List (BitVec 16)) : ℕ → Metrics
  | 0 => metric
  | t + 1 => (convAcsStep code (scalarAt code metric costs t) (costs.drop (code.lanes * t))).1

/-- Row the reference writes in step `t`. -/
def rowAt (code : ConvCode) (metric : Metrics) (costs : List (BitVec 16)) (t : ℕ) : Row :=
  (convAcsStep code (scalarAt code metric costs t) (costs.drop (code.lanes * t))).2

theorem scalarAt_shift (code : ConvCode) (metric : Metrics) (costs : List (BitVec 16)) (t : ℕ) :
    scalarAt code (convAcsStep code metric costs).1 (costs.drop code.lanes) t =
      scalarAt code metric costs (t + 1) := by
  induction t with
  | zero => rfl
  | succ t ih =>
    rw [scalarAt, ih, drop_drop, Nat.add_comm code.lanes, ← Nat.mul_succ]
    rfl

theorem convAcsRunScalar_eq (code : ConvCode) (n : ℕ) (metric : Metrics)
    (costs : List (BitVec 16)) :
    convAcsRunScalar code n metric costs =
      (scalarAt code metric costs n, (List.range n).map (rowAt code metric costs)) := by
  induction n generalizing metric costs with
  | zero => rfl
  | succ n ih =>
    have hrows : (List.range n).map (rowAt code (convAcsStep code metric costs).1
        (costs.drop code.lanes)) =
        (List.range n).map fun t => rowAt code metric costs (t + 1) := by
      refine map_congr_left fun t _ => ?_
      rw [rowAt, scalarAt_shift, drop_drop, rowAt, Nat.mul_succ, Nat.add_comm code.lanes]
    rw [convAcsRunScalar, ih, scalarAt_shift, hrows, range_succ_eq_map, map_cons, map_map]
    rfl

theorem scalarAt_le (code : ConvCode) {metric : Metrics} (costs : List (BitVec 16))
    (h : ∀ s, (metric.get s).toNat ≤ viterbiInf) (t : ℕ) (s : Fin 16) :
    ((scalarAt code metric costs t).get s).toNat ≤ viterbiInf := by
  cases t with
  | zero => exact h s
  | succ t => exact convAcsStep_le code _ _ s

/-- Surviving predecessor in step `t`, zero where the state is unreachable. -/
def predAt (code : ConvCode) (metric : Metrics) (costs : List (BitVec 16)) (t : ℕ) (s : Fin 16) :
    Fin 16 :=
  if best code (scalarAt code metric costs t) (costs.drop (code.lanes * t)) s < inf then
    survivor code (scalarAt code metric costs t) (costs.drop (code.lanes * t)) s
  else 0

theorem rowAt_eq (code : ConvCode) (metric : Metrics) (costs : List (BitVec 16)) (t : ℕ)
    (s : Fin 16) :
    ((rowAt code metric costs t).toList.getD s.val 0).toNat =
    (predAt code metric costs t s).val := by
  have hget : (rowAt code metric costs t).toList.getD s.val 0 = (rowAt code metric costs t)[s] := by
    simp [getD_eq_getElem?_getD]
  rw [hget, rowAt, predAt]
  simp only [convAcsStep, Fin.getElem_fin, Vector.getElem_ofFn]
  split
  · rw [BitVec.toNat_ofNat, Nat.mod_eq_of_lt]
    omega
  · rfl

/-- Following the rows back from a state collects the inputs of the states passed. -/
theorem convChainback_eq (code : ConvCode) {row : ℕ → Row} {pred : ℕ → Fin 16 → Fin 16}
    (hrow : ∀ t (s : Fin 16), ((row t).toList.getD s.val 0).toNat = (pred t s).val) (n : ℕ)
    (s : Fin 16) (out : List (BitVec 8)) :
    convChainback code ((List.range n).map row).reverse s.val out =
      ((List.range n).map fun t =>
        BitVec.ofNat 8 (convInputOf code (traceback pred n s (t + 1)).val)) ++ out := by
  induction n generalizing s out with
  | zero => rfl
  | succ n ih =>
    rw [range_succ, map_append, reverse_append, map_cons, map_nil,
      reverse_singleton, singleton_append, convChainback, hrow, ih, map_append,
      append_assoc, map_cons, map_nil, singleton_append, traceback_self]
    refine congrArg₂ _ (map_congr_left fun t ht => ?_) rfl
    have hlt := mem_range.mp ht
    rw [traceback_succ_of_le pred s (by omega)]

theorem startMetrics_le (s : Fin 16) : (startMetrics.get s).toNat ≤ viterbiInf := by
  revert s
  decide

/-- The decoder starts from state zero alone. -/
theorem startMetrics_lt (s : Fin 16) (h : (startMetrics.get s).toNat < viterbiInf) : s = 0 := by
  revert s
  decide

/-- Metrics of the decoder as numbers. -/
def metricAt (costs : List (BitVec 16)) (t : ℕ) (s : Fin 16) : ℕ :=
  ((scalarAt signallingCode startMetrics costs t).get s).toNat

section Decode

variable {costs : List (BitVec 16)} {n : ℕ} (hlen : costs.length = 4 * n)

include hlen

theorem sums_prices {t : ℕ} (ht : t < n) (s : Fin 16) :
    (sums signallingCode (scalarAt signallingCode startMetrics costs t)
    (costs.drop (4 * t)) s).1.toNat =
        metricAt costs t (lowState true s) +
          signalling.branch signallingInput (pricesAt costs t) (lowState true s) s ∧
      (sums signallingCode (scalarAt signallingCode startMetrics costs t)
        (costs.drop (4 * t)) s).2.toNat =
        metricAt costs t (highState true s) +
          signalling.branch signallingInput (pricesAt costs t) (highState true s) s := by
  obtain ⟨hlow, hhigh⟩ := branch_prices hlen ht s
  rw [hlow, hhigh]
  have hlanes : signallingCode.lanes ≤ 4 := by decide
  exact toNat_sums hlanes
    (scalarAt_le signallingCode costs startMetrics_le t) (costs.drop (4 * t)) s

theorem relaxed_metricAt {t : ℕ} (ht : t < n) :
    Relaxed (signalling.Edge signallingInput) (signalling.branch signallingInput (pricesAt costs t))
      (metricAt costs t) (metricAt costs (t + 1)) := by
  have hnext : ∀ s, metricAt costs (t + 1) s ≤ (best signallingCode
      (scalarAt signallingCode startMetrics costs t) (costs.drop (4 * t)) s).toNat := by
    intro s
    simp only [metricAt, scalarAt, convAcsStep, get_ofFn]
    split
    · exact le_rfl
    · rename_i h
      exact Nat.le_of_not_lt (fun hlt => h (BitVec.lt_def.mpr hlt))
  refine relaxed_of_select (fun r s h => (signalling_edge_iff r s).mp h) (fun s => ?_) fun s => ?_
  all_goals
    obtain ⟨ha, hb⟩ := sums_prices hlen ht s
    refine (hnext s).trans ?_
    rw [toNat_best]
    omega

theorem traced_metricAt {t : ℕ} (ht : t < n) :
    Traced viterbiInf (signalling.Edge signallingInput)
      (signalling.branch signallingInput (pricesAt costs t)) (metricAt costs t)
      (metricAt costs (t + 1)) (predAt signallingCode startMetrics costs t) := by
  have hinf : inf.toNat = viterbiInf := by decide
  refine traced_of_select (fun s => ⟨(signalling_edge_iff _ _).mpr (Or.inl rfl),
    (signalling_edge_iff _ _).mpr (Or.inr rfl)⟩) fun s hs => ?_
  obtain ⟨ha, hb⟩ := sums_prices hlen ht s
  have hbest : best signallingCode (scalarAt signallingCode startMetrics costs t)
      (costs.drop (4 * t)) s < inf := by
    by_contra hge
    have hclamped : metricAt costs (t + 1) s = inf.toNat := by
      simp only [metricAt, scalarAt, convAcsStep, get_ofFn]
      exact congrArg BitVec.toNat (if_neg hge)
    omega
  have hnext : metricAt costs (t + 1) s = (best signallingCode
      (scalarAt signallingCode startMetrics costs t) (costs.drop (4 * t)) s).toNat :=
    congrArg BitVec.toNat (convAcsStep_of_lt hbest)
  rw [predAt, show signallingCode.lanes = 4 from rfl, if_pos hbest, hnext]
  simp only [survivor, best]
  split
  · exact Or.inr ⟨rfl, hb⟩
  · exact Or.inl ⟨rfl, ha⟩

/-- The metric of a flushed word stays below the bound. -/
theorem metricAt_lt {u : ℕ → Bool} (hsmall : n * 262140 < viterbiInf) :
    metricAt costs n (signalling.states 0 u n) < viterbiInf := by
  have hpath := LinearCode.isPath_states signallingInput_next 0 u n
  have hbound := @metric_le_pathCost _ _ _ _ _ _ _ (metricAt costs) _
    (fun t ht => relaxed_metricAt hlen ht) _ hpath
  have hcost : pathCost (fun t => signalling.branch signallingInput (pricesAt costs t)) n
      (signalling.states 0 u) ≤ n * 262140 := by
    refine (Finset.sum_le_card_nsmul (Finset.range n) _ 262140 fun t ht => ?_).trans (by simp)
    beta_reduce
    have htn := Finset.mem_range.mp ht
    obtain ⟨hlow, hhigh⟩ := branch_prices hlen htn (signalling.states 0 u (t + 1))
    have hle := (@toNat_branch signallingCode (by decide) (costs.drop (4 * t))
      (signalling.states 0 u (t + 1))).2
    rw [show signallingCode.lanes = 4 from rfl] at hle
    rcases (signalling_edge_iff _ _).mp (hpath t htn) with h | h
    · rw [h, hlow]
      exact hle
    · rw [h, hhigh]
      omega
  have hzero : metricAt costs 0 (signalling.states 0 u 0) = 0 := rfl
  omega

theorem convViterbi_sent (kernel : Kernel) {ws : List (List (ℕ × ℕ))} {u : ℕ → Bool}
    {ceiling nBits : ℕ} (hn : n = nBits + 4) (hsmall : n * 262140 < viterbiInf)
    (hws : ws.length = n) (hflush : ∀ i, i < 4 → u (nBits + i) = false)
    (hpos : LinearCode.agreements ws < signalling.leastCharge ceiling (· == 0) ws)
    (hc : signalling.Prices ws (pricesAt costs) 0 u) :
    convViterbi kernel signallingCode costs n = (List.range n).map fun t => bitByte (u t) := by
  have hrun : convAcsRun kernel signallingCode n startMetrics costs =
      convAcsRunScalar signallingCode n startMetrics costs := by
    cases kernel
    · rfl
    · exact convAcsRunSimd_eq (by decide) n startMetrics_le costs
  have hend : signalling.states 0 u n = 0 := by
    rw [hn]
    exact signalling_flush 0 u nBits hflush
  have hlast := metricAt_lt hlen (u := u) hsmall
  rw [hend] at hlast
  obtain ⟨-, hinput⟩ :=
    @LinearCode.traceback_records _ signalling signallingInput _ viterbiInf (· == 0)
    ws (pricesAt costs) (metricAt costs) (predAt signallingCode startMetrics costs) 0 0 u
    signallingInput_next (fun _ _ => rfl)
    (fun t ht => relaxed_metricAt hlen (by omega)) (fun t ht => traced_metricAt hlen (by omega))
    (fun r hr => by rw [startMetrics_lt r hr]; exact ⟨le_rfl, rfl⟩) (by rw [hws]; exact hend)
    (by rw [hws]; exact hlast) hpos hc
  rw [hws] at hinput
  have hzero : endState (scalarAt signallingCode startMetrics costs n) = (0 : Fin 16).val := by
    rw [endState, if_neg]
    · rfl
    · intro heq
      have : metricAt costs n 0 = inf.toNat := congrArg BitVec.toNat heq
      have hinf : inf.toNat = viterbiInf := by decide
      omega
  have hbyte : ∀ s : Fin 16, BitVec.ofNat 8 (convInputOf signallingCode s.val) =
      bitByte (signallingInput s) := by decide
  rw [convViterbi, hrun, convAcsRunScalar_eq]
  simp only [hzero]
  rw [convChainback_eq signallingCode (rowAt_eq signallingCode startMetrics costs) n 0 [],
    append_nil]
  refine map_congr_left fun t ht => ?_
  rw [hbyte, hinput t (mem_range.mp ht)]

end Decode

end DsdNeo.Tetra
