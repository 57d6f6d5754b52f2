import DsdNeo.Models.Tetra.Trellis

/-!
# The decoder and its encoder

The decoder has a table of the words on its edges and formulas for predecessors; the encoder has
taps and a register. For both codes they describe one trellis, so that the decoder returns the
inputs of a path of least cost from state zero to state zero, and undoes the encoder on a flushed
input.
-/

namespace DsdNeo.Tetra

open Trellis List

/-- Successor state of the encoder. -/
def nextState (code : ConvCode) (s : Fin 16) (b : Bool) : Fin 16 :=
  Fin.ofNat 16 (convNextState code s.val b.toNat)

/-- The input a state records. -/
def inputOf (code : ConvCode) (s : Fin 16) : Bool := convInputOf code s.val == 1

/-- A coded bit of the encoder. -/
def expectedBit (code : ConvCode) (s : Fin 16) (b : Bool) (lane : ℕ) : Bool :=
  parity5 (BitVec.ofNat 8 (((b.toNat <<< 4) ||| s.val) &&& code.taps.getD lane 0)) == 1

/-- The encoder and the decoder of a code describe one trellis. -/
structure ConvCode.Matched (code : ConvCode) : Prop where
  lanes : 1 ≤ code.lanes ∧ code.lanes ≤ 4
  next : ∀ (s : Fin 16) (b : Bool), convNextState code s.val b.toNat = (nextState code s b).val ∧
    inputOf code (nextState code s b) = b
  edge : ∀ r s : Fin 16, s = nextState code r (inputOf code s) ↔
    r = lowState code.shiftUp s ∨ r = highState code.shiftUp s
  input : ∀ s : Fin 16, BitVec.ofNat 8 (convInputOf code s.val) = bitByte (inputOf code s)
  incoming : ∀ (s : Fin 16) (lane : Fin 4), lane.val < code.lanes →
    ((code.incoming.get s >>> lane.val) &&& 1 ≠ 0 ↔
      expectedBit code (lowState code.shiftUp s) (inputOf code s) lane = true) ∧
    expectedBit code (highState code.shiftUp s) (inputOf code s) lane =
      !expectedBit code (lowState code.shiftUp s) (inputOf code s) lane
  coded : ∀ (s : Fin 16) (b : Bool) (lane : Fin 4), parity5 (BitVec.ofNat 8
    ((((bitByte b &&& 1).toNat <<< 4) ||| s.val) &&& code.taps.getD lane 0)) =
      bitByte (expectedBit code s b lane)
  first : ∀ s : Fin 16, expectedBit code s true 0 = !expectedBit code s false 0
  flush : ∀ s : Fin 16, nextState code (nextState code (nextState code
    (nextState code s false) false) false) false = 0

theorem matched_signallingCode : signallingCode.Matched where
  lanes := by decide
  next := by decide
  edge := by decide
  input := by decide
  incoming := by decide
  coded := by decide
  first := by decide
  flush := by decide

theorem matched_speechCode : speechCode.Matched where
  lanes := by decide
  next := by decide
  edge := by decide
  input := by decide
  incoming := by decide
  coded := by decide
  first := by decide
  flush := by decide

variable {code : ConvCode}

/-- The cost of an expected bit. -/
def price (cost : BitVec 16) (b : Bool) : ℕ := bif b then 65535 - cost.toNat else cost.toNat

/-- The cost of the edge from `r` into `s`. -/
def edgeCost (code : ConvCode) (step : List (BitVec 16)) (r s : Fin 16) : ℕ :=
  ∑ lane ∈ Finset.range code.lanes,
    price (costAt step lane) (expectedBit code r (inputOf code s) lane)

theorem price_le (cost : BitVec 16) (b : Bool) : price cost b ≤ 65535 := by
  have hcost := cost.isLt
  cases b with
  | false => exact Nat.le_of_lt_succ hcost
  | true => exact Nat.sub_le _ _

theorem edgeCost_le (hcode : code.Matched) (step : List (BitVec 16)) (r s : Fin 16) :
    edgeCost code step r s ≤ 262140 := by
  have hlanes := hcode.lanes.2
  refine (Finset.sum_le_card_nsmul _ _ 65535 fun lane _ => price_le _ _).trans ?_
  rw [Finset.card_range, Nat.nsmul_eq_mul]
  omega

theorem edgeCost_eq (hcode : code.Matched) (step : List (BitVec 16)) (s : Fin 16) :
    edgeCost code step (lowState code.shiftUp s) s = (branch code step s).toNat ∧
      edgeCost code step (highState code.shiftUp s) s =
        code.lanes * 65535 - (branch code step s).toNat := by
  have hlane : ∀ lane ∈ Finset.range code.lanes, (laneBranch code (costAt step lane) lane s).toNat =
      price (costAt step lane)
        (expectedBit code (lowState code.shiftUp s) (inputOf code s) lane) := by
    intro lane hmem
    have hlt := Finset.mem_range.mp hmem
    obtain ⟨hbit, -⟩ := hcode.incoming s ⟨lane, hlt.trans_le hcode.lanes.2⟩ hlt
    rw [toNat_laneBranch, price]
    by_cases hset : expectedBit code (lowState code.shiftUp s) (inputOf code s) lane = true
    · rw [if_pos (hbit.mpr hset), hset, cond_true]
    · rw [if_neg fun h => hset (hbit.mp h), Bool.eq_false_iff.mpr hset, cond_false]
  have hboth : ∀ lane ∈ Finset.range code.lanes,
      price (costAt step lane) (expectedBit code (lowState code.shiftUp s) (inputOf code s) lane) +
        price (costAt step lane)
          (expectedBit code (highState code.shiftUp s) (inputOf code s) lane) =
          65535 := by
    intro lane hmem
    have hlt := Finset.mem_range.mp hmem
    obtain ⟨-, hhigh⟩ := hcode.incoming s ⟨lane, hlt.trans_le hcode.lanes.2⟩ hlt
    have hcost := (costAt step lane).isLt
    rw [hhigh]
    cases expectedBit code (lowState code.shiftUp s) (inputOf code s) lane
    · simp only [price, cond_false, cond_true, Bool.not_false]
      omega
    · simp only [price, cond_false, cond_true, Bool.not_true]
      omega
  have hlow : edgeCost code step (lowState code.shiftUp s) s = (branch code step s).toNat := by
    rw [(toNat_branch hcode.lanes.2 step s).1]
    exact (Finset.sum_congr rfl hlane).symm
  have hsum := Finset.sum_congr rfl hboth
  rw [Finset.sum_add_distrib, Finset.sum_const, Finset.card_range, Nat.nsmul_eq_mul] at hsum
  refine ⟨hlow, ?_⟩
  rw [← hlow]
  exact Nat.eq_sub_of_add_eq' hsum

/-- An edge of the encoder. -/
def ConvCode.Edge (code : ConvCode) (r s : Fin 16) : Prop := s = nextState code r (inputOf code s)

/-- Metrics of the decoder as numbers. -/
def survivorAt (code : ConvCode) (costs : List (BitVec 16)) (t : ℕ) (s : Fin 16) : ℕ :=
  ((scalarAt code startMetrics costs t).get s).toNat

/-- The cost of an edge in step `t`. -/
def costOf (code : ConvCode) (costs : List (BitVec 16)) (t : ℕ) : Fin 16 → Fin 16 → ℕ :=
  edgeCost code (costs.drop (code.lanes * t))

section Decode

variable (hcode : code.Matched) (costs : List (BitVec 16))

include hcode

theorem sums_eq (t : ℕ) (s : Fin 16) :
    (sums code (scalarAt code startMetrics costs t) (costs.drop (code.lanes * t)) s).1.toNat =
        survivorAt code costs t (lowState code.shiftUp s) +
          costOf code costs t (lowState code.shiftUp s) s ∧
      (sums code (scalarAt code startMetrics costs t) (costs.drop (code.lanes * t)) s).2.toNat =
        survivorAt code costs t (highState code.shiftUp s) +
          costOf code costs t (highState code.shiftUp s) s := by
  obtain ⟨hlow, hhigh⟩ := edgeCost_eq hcode (costs.drop (code.lanes * t)) s
  rw [costOf, hlow, hhigh]
  exact toNat_sums hcode.lanes.2 (scalarAt_le code costs startMetrics_le t) _ s

theorem relaxed_survivorAt (t : ℕ) : Relaxed code.Edge (costOf code costs t)
    (survivorAt code costs t) (survivorAt code costs (t + 1)) := by
  have hnext : ∀ s, survivorAt code costs (t + 1) s ≤
      (best code (scalarAt code startMetrics costs t) (costs.drop (code.lanes * t)) s).toNat := by
    intro s
    simp only [survivorAt, scalarAt, convAcsStep, get_ofFn]
    split
    · exact le_rfl
    · rename_i h
      exact Nat.le_of_not_lt fun hlt => h (BitVec.lt_def.mpr hlt)
  refine relaxed_of_select (fun r s h => (hcode.edge r s).mp h) (fun s => ?_) fun s => ?_
  all_goals
    obtain ⟨ha, hb⟩ := sums_eq hcode costs t s
    refine (hnext s).trans ?_
    rw [toNat_best]
    omega

theorem traced_survivorAt (t : ℕ) : Traced viterbiInf code.Edge (costOf code costs t)
    (survivorAt code costs t) (survivorAt code costs (t + 1))
      (predAt code startMetrics costs t) := by
  have hinf : inf.toNat = viterbiInf := by decide
  refine traced_of_select
    (fun s => ⟨(hcode.edge _ _).mpr (Or.inl rfl), (hcode.edge _ _).mpr (Or.inr rfl)⟩) fun s hs => ?_
  obtain ⟨ha, hb⟩ := sums_eq hcode costs t s
  have hbest : best code (scalarAt code startMetrics costs t) (costs.drop (code.lanes * t)) s <
    inf := by
    by_contra hge
    have hclamped : survivorAt code costs (t + 1) s = inf.toNat := by
      simp only [survivorAt, scalarAt, convAcsStep, get_ofFn]
      exact congrArg BitVec.toNat (if_neg hge)
    omega
  have hnext : survivorAt code costs (t + 1) s = (best code
      (scalarAt code startMetrics costs t) (costs.drop (code.lanes * t)) s).toNat :=
    congrArg BitVec.toNat (convAcsStep_of_lt hbest)
  rw [predAt, if_pos hbest, hnext]
  simp only [survivor, best]
  split
  · exact Or.inr ⟨rfl, hb⟩
  · exact Or.inl ⟨rfl, ha⟩

end Decode

/-- The states of the encoder under some inputs. -/
def stateAt (code : ConvCode) (s : Fin 16) (bits : List Bool) : ℕ → Fin 16
  | 0 => s
  | t + 1 => nextState code (stateAt code s bits t) (bits.getD t false)

/-- The coded bits of some inputs. -/
def codedBits (code : ConvCode) : Fin 16 → List Bool → List Bool
  | _, [] => []
  | s, b :: bits =>
    (List.range code.lanes).map (expectedBit code s b) ++ codedBits code (nextState code s b) bits

/-- The cost of coded bits. -/
def codedCost (costs : List (BitVec 16)) (coded : List Bool) : ℕ :=
  (List.zipWith price costs coded).sum

theorem stateAt_cons (s : Fin 16) (b : Bool) (bits : List Bool) (t : ℕ) :
    stateAt code s (b :: bits) (t + 1) = stateAt code (nextState code s b) bits t := by
  induction t with
  | zero => rfl
  | succ t ih => rw [stateAt, ih, getD_cons_succ, stateAt]

theorem length_codedBits (s : Fin 16) (bits : List Bool) :
    (codedBits code s bits).length = code.lanes * bits.length := by
  induction bits generalizing s with
  | nil => rfl
  | cons b bits ih =>
    rw [codedBits, length_append, length_map, length_range, ih, length_cons,
      Nat.mul_succ, Nat.add_comm]

theorem stateAt_of_isPath {n : ℕ} {p : ℕ → Fin 16} (hp : IsPath code.Edge n p) {t : ℕ}
    (ht : t ≤ n) :
    stateAt code (p 0) ((List.range n).map fun i => inputOf code (p (i + 1))) t = p t := by
  induction t with
  | zero => rfl
  | succ t ih =>
    have hin : ((List.range n).map fun i => inputOf code (p (i + 1))).getD t false =
        inputOf code (p (t + 1)) := by
      rw [getD_eq_getElem?_getD, getElem?_map, getElem?_range ht]
      rfl
    rw [stateAt, ih (by omega), hin]
    exact (hp t ht).symm

section Encoder

variable (hcode : code.Matched)

include hcode

/-- The encoder writes the coded bits. -/
theorem convEncodeLoop_bits (bits : List Bool) (s : Fin 16) :
    convEncodeLoop code (bits.map bitByte) s.val = (codedBits code s bits).map bitByte := by
  induction bits generalizing s with
  | nil => rfl
  | cons b bits ih =>
    have hbyte : (bitByte b &&& 1).toNat = b.toNat := by cases b <;> rfl
    have hnext := (hcode.next s b).1
    rw [map_cons, convEncodeLoop, codedBits, map_append, map_map, hbyte, hnext, ih]
    refine congrArg (· ++ _) (map_congr_left fun lane hmem => ?_)
    have hlt := (mem_range.mp hmem).trans_le hcode.lanes.2
    have hcoded := hcode.coded s b ⟨lane, hlt⟩
    rw [hbyte] at hcoded
    exact hcoded

theorem isPath_stateAt (s : Fin 16) (bits : List Bool) (n : ℕ) :
    IsPath code.Edge n (stateAt code s bits) := by
  intro t _
  rw [ConvCode.Edge, stateAt, (hcode.next _ _).2]

theorem codedCost_eq (s : Fin 16) (bits : List Bool) (costs : List (BitVec 16))
    (hlen : costs.length = code.lanes * bits.length) :
    codedCost costs (codedBits code s bits) =
      pathCost (costOf code costs) bits.length (stateAt code s bits) := by
  induction bits generalizing s costs with
  | nil =>
    rw [codedBits, codedCost, zipWith_nil_right]
    rfl
  | cons b bits ih =>
    have hstep : code.lanes ≤ costs.length := by
      rw [hlen, length_cons, Nat.mul_succ]
      omega
    have hrest : (costs.drop code.lanes).length = code.lanes * bits.length := by
      rw [length_drop, hlen, length_cons, Nat.mul_succ, Nat.add_sub_cancel]
    have hsplit : costs = costs.take code.lanes ++ costs.drop code.lanes :=
      (take_append_drop _ _).symm
    have htake : (costs.take code.lanes).length =
        ((List.range code.lanes).map (expectedBit code s b)).length := by
      rw [length_take, length_map, length_range, min_eq_left hstep]
    -- the first step, lane by lane
    have hfirst : (List.zipWith price (costs.take code.lanes)
        ((List.range code.lanes).map (expectedBit code s b))).sum =
          edgeCost code costs s (nextState code s b) := by
      have hlist : List.zipWith price (costs.take code.lanes)
          ((List.range code.lanes).map (expectedBit code s b)) =
            (List.range code.lanes).map fun lane =>
              price (costAt costs lane) (expectedBit code s b lane) := by
        refine ext_getElem (by simp [hstep]) fun i hi _ => ?_
        have hi' : i < code.lanes := by
          rw [length_zipWith, length_map, length_range] at hi
          exact hi.trans_le (min_le_right _ _)
        simp [costAt, getD_eq_getElem?_getD, getElem?_eq_getElem (hi'.trans_le hstep)]
      rw [hlist, edgeCost, (hcode.next s b).2]
      rfl
    have hshift : ∀ t, costOf code costs (t + 1) = costOf code (costs.drop code.lanes) t := by
      intro t
      rw [costOf, costOf, drop_drop, Nat.mul_succ, Nat.add_comm]
    rw [codedBits, codedCost]
    nth_rewrite 1 [hsplit]
    rw [zipWith_append htake, sum_append, hfirst, ← codedCost, ih _ _ hrest, pathCost,
      pathCost, length_cons, Finset.sum_range_succ', Nat.add_comm]
    refine congrArg₂ (· + ·) (Finset.sum_congr rfl fun t _ => ?_) ?_
    · rw [hshift, stateAt_cons, stateAt_cons]
    · rw [costOf, Nat.mul_zero, drop_zero]
      rfl

end Encoder

/-- The cost of what the encoder wrote. -/
def writtenCost (costs : List (BitVec 16)) (coded : List (BitVec 8)) : ℕ :=
  (List.zipWith (fun c b => if b = 0 then c.toNat else 65535 - c.toNat) costs coded).sum

theorem writtenCost_encode (hcode : code.Matched) (costs : List (BitVec 16)) (bits : List Bool) :
    writtenCost costs (convEncode code (bits.map bitByte)) =
      codedCost costs (codedBits code 0 bits) := by
  rw [convEncode, show (0 : ℕ) = (0 : Fin 16).val from rfl, convEncodeLoop_bits hcode, writtenCost,
    codedCost, zipWith_map_right]
  refine congrArg (fun f => (List.zipWith f costs _).sum) ?_
  funext c b
  cases b <;> rfl

section Exact

variable (hcode : code.Matched) {costs : List (BitVec 16)} {n : ℕ} (hn : n ≤ viterbiMaxBits)

include hcode

theorem convAcsRun_eq (hshape : (code.lanes = 4 ∧ code.shiftUp) ∨ (code.lanes = 3 ∧ ¬ code.shiftUp))
    (kernel : Kernel) : convAcsRun kernel code n startMetrics costs =
      convAcsRunScalar code n startMetrics costs := by
  cases kernel with
  | scalar => rfl
  | sse2 =>
    rw [convAcsRun, if_pos hshape]
    exact convAcsRunSimd_eq hcode.lanes.2 n startMetrics_le costs

include hn

theorem survivorAt_zero_lt : survivorAt code costs n 0 < viterbiInf := by
  have hstay : ∀ t, stateAt code 0 (List.replicate n false) t = 0 := by
    intro t
    induction t with
    | zero => rfl
    | succ t ih =>
      have hin : (List.replicate n false).getD t false = false := by
        rw [getD_eq_getElem?_getD, getElem?_replicate]
        split <;> rfl
      have hzero : (0 : Fin 16) = nextState code 0 (inputOf code 0) :=
        (hcode.edge 0 0).mpr (by cases code.shiftUp <;> decide)
      have hfalse : inputOf code 0 = false := by
        have hflush := hcode.flush 0
        rw [← hflush, (hcode.next _ _).2]
      rw [stateAt, ih, hin, ← hfalse]
      exact hzero.symm
  have hle := metric_le_pathCost (fun t _ => relaxed_survivorAt hcode costs t)
    (isPath_stateAt hcode 0 (List.replicate n false) n)
  rw [hstay, hstay, show survivorAt code costs 0 0 = 0 from rfl, Nat.zero_add] at hle
  have hcost : pathCost (costOf code costs) n (stateAt code 0 (List.replicate n false)) ≤
      n * 262140 := by
    refine (Finset.sum_le_card_nsmul (Finset.range n) _ 262140 fun t _ => ?_).trans (by simp)
    exact edgeCost_le hcode _ _ _
  have hinf : viterbiInf = 1073741823 := rfl
  have hmax : viterbiMaxBits = 512 := rfl
  omega

theorem convViterbi_least (hlen : costs.length = code.lanes * n) {kernel : Kernel}
    (hrun : convAcsRun kernel code n startMetrics costs =
      convAcsRunScalar code n startMetrics costs) :
    ∃ bits, bits.length = n ∧ convViterbi kernel code costs n = bits.map bitByte ∧
      stateAt code 0 bits n = 0 ∧ ∀ other, other.length = n → stateAt code 0 other n = 0 →
        codedCost costs (codedBits code 0 bits) ≤ codedCost costs (codedBits code 0 other) := by
  have hbelow : survivorAt code costs n 0 < viterbiInf := survivorAt_zero_lt hcode hn
  obtain ⟨hpath, hstart, hcost⟩ := traceback_spec (fun t _ => traced_survivorAt hcode costs t)
    (fun _ _ _ => Nat.zero_le _) hbelow
  have hzero := startMetrics_lt _ hstart
  have hbegin : survivorAt code costs 0 (traceback (predAt code startMetrics costs) n 0 0) = 0 := by
    rw [hzero]
    rfl
  rw [hbegin, Nat.zero_add] at hcost
  let bits := (List.range n).map fun i =>
    inputOf code (traceback (predAt code startMetrics costs) n 0 (i + 1))
  have hbits : bits.length = n := by simp [bits]
  have hstates : ∀ t, t ≤ n → stateAt code 0 bits t =
      traceback (predAt code startMetrics costs) n 0 t := by
    intro t ht
    have h := stateAt_of_isPath hpath ht
    rwa [hzero] at h
  refine ⟨bits, hbits, ?_, (hstates n le_rfl).trans (traceback_self _ n 0),
    fun other hother hend => ?_⟩
  · have hstate : endState (scalarAt code startMetrics costs n) = (0 : Fin 16).val := by
      rw [endState, if_neg]
      · rfl
      · intro heq
        have hval : survivorAt code costs n 0 = inf.toNat := congrArg BitVec.toNat heq
        have hinf : inf.toNat = viterbiInf := by decide
        omega
    rw [convViterbi, hrun, convAcsRunScalar_eq]
    simp only [hstate]
    rw [convChainback_eq code (rowAt_eq code startMetrics costs) n 0 [], append_nil, map_map]
    exact map_congr_left fun t _ => hcode.input _
  · have hle := metric_le_pathCost (fun t _ => relaxed_survivorAt hcode costs t)
      (isPath_stateAt hcode 0 other n)
    rw [hend, show survivorAt code costs 0 (stateAt code 0 other 0) = 0 from rfl, Nat.zero_add,
      hcost] at hle
    rw [codedCost_eq hcode 0 bits costs (by rw [hbits, hlen]),
      codedCost_eq hcode 0 other costs (by rw [hother, hlen]), hbits, hother]
    exact (pathCost_congr _ hstates).trans_le hle

end Exact

/-- Costs that are certain charge a word nothing only where it is the word sent. -/
theorem eq_of_codedCost_zero {sent coded : List Bool} (hlen : sent.length = coded.length)
    (h : codedCost (hardBitsToSoft (sent.map bitByte)) coded = 0) : sent = coded := by
  induction sent generalizing coded with
  | nil => exact (length_eq_zero_iff.mp hlen.symm).symm
  | cons b sent ih =>
    obtain _ | ⟨b', coded⟩ := coded
    · cases hlen
    rw [map_cons, hardBitsToSoft, map_cons, codedCost, zipWith_cons_cons,
      sum_cons, Nat.add_eq_zero_iff] at h
    have htail := ih (Nat.succ.inj hlen) h.2
    have hhead : b = b' := by
      have hprice := h.1
      cases b <;> cases b' <;> first | rfl | (revert hprice; decide)
    rw [hhead, htail]

theorem codedCost_sent (sent : List Bool) :
    codedCost (hardBitsToSoft (sent.map bitByte)) sent = 0 := by
  induction sent with
  | nil => rfl
  | cons b sent ih =>
    rw [hardBitsToSoft, codedCost] at ih
    rw [map_cons, hardBitsToSoft, map_cons, codedCost, zipWith_cons_cons, sum_cons, ih]
    cases b <;> rfl

/-- The first coded bit of a step tells its input. -/
theorem codedBits_injective (hcode : code.Matched) {s : Fin 16} {bits bits' : List Bool}
    (hlen : bits.length = bits'.length) (h : codedBits code s bits = codedBits code s bits') :
    bits = bits' := by
  induction bits generalizing s bits' with
  | nil => exact (length_eq_zero_iff.mp hlen.symm).symm
  | cons b bits ih =>
    obtain _ | ⟨b', bits'⟩ := bits'
    · cases hlen
    rw [codedBits, codedBits] at h
    obtain ⟨hfirst, hrest⟩ := append_inj h (by simp)
    have hbit : expectedBit code s b 0 = expectedBit code s b' 0 :=
      map_inj_left.mp hfirst 0 (mem_range.mpr hcode.lanes.1)
    have hb : b = b' := by
      have hne := hcode.first s
      cases b <;> cases b' <;> simp_all
    subst hb
    rw [ih (Nat.succ.inj hlen) hrest]

theorem stateAt_append (s : Fin 16) (bits rest : List Bool) (t : ℕ) :
    stateAt code s (bits ++ rest) (bits.length + t) =
      stateAt code (stateAt code s bits bits.length) rest t := by
  induction bits generalizing s with
  | nil =>
    rw [nil_append, length_nil, Nat.zero_add]
    rfl
  | cons b bits ih =>
    rw [cons_append, length_cons, show bits.length + 1 + t = bits.length + t + 1 by omega,
      stateAt_cons, ih, stateAt_cons]

/-- For either code, up to the longest input and with either kernel: the decoder returns the inputs
of a path from state zero to state zero whose coded bits cost least, and what the encoder wrote of
an input that ends in four zeros decodes to it. -/
theorem convViterbi_exact (code : ConvCode) (hcode : code = signallingCode ∨ code = speechCode)
    (kernel : Kernel) (nbits : ℕ) (hn : nbits ≤ viterbiMaxBits) :
    (∀ costs : List (BitVec 16), costs.length = code.lanes * nbits →
        ∃ bits, bits.length = nbits ∧ convViterbi kernel code costs nbits = bits.map bitByte ∧
          stateAt code 0 bits nbits = 0 ∧
          ∀ other, other.length = nbits → stateAt code 0 other nbits = 0 →
            writtenCost costs (convEncode code (bits.map bitByte)) ≤
              writtenCost costs (convEncode code (other.map bitByte))) ∧
      ∀ data : List Bool, data.length + 4 = nbits →
        convViterbi kernel code
            (hardBitsToSoft (convEncode code ((data ++ List.replicate 4 false).map bitByte)))
              nbits = (data ++ List.replicate 4 false).map bitByte := by
  have hmatched : code.Matched := by
    rcases hcode with rfl | rfl
    · exact matched_signallingCode
    · exact matched_speechCode
  have hshape : (code.lanes = 4 ∧ code.shiftUp) ∨ (code.lanes = 3 ∧ ¬ code.shiftUp) := by
    rcases hcode with rfl | rfl
    · exact Or.inl (by decide)
    · exact Or.inr (by decide)
  constructor
  · intro costs hlen
    obtain ⟨bits, hbits, hdecoded, hend, hleast⟩ :=
      convViterbi_least hmatched hn hlen (convAcsRun_eq hmatched hshape kernel)
    refine ⟨bits, hbits, hdecoded, hend, fun other hother hzero => ?_⟩
    rw [writtenCost_encode hmatched, writtenCost_encode hmatched]
    exact hleast other hother hzero
  · intro data hdata
    let sent := data ++ List.replicate 4 false
    have hsent : sent.length = nbits := by
      rw [length_append, length_replicate]
      exact hdata
    have hcosts : hardBitsToSoft (convEncode code (sent.map bitByte)) =
        hardBitsToSoft ((codedBits code 0 sent).map bitByte) :=
      congrArg hardBitsToSoft (convEncodeLoop_bits hmatched sent 0)
    have hlen : (hardBitsToSoft (convEncode code (sent.map bitByte))).length =
        code.lanes * nbits := by
      rw [hcosts, hardBitsToSoft, length_map, length_map, length_codedBits, hsent]
    have hflush : stateAt code 0 sent nbits = 0 := by
      rw [← hdata]
      exact (stateAt_append 0 data (List.replicate 4 false) 4).trans (hmatched.flush _)
    obtain ⟨bits, hbits, hdecoded, -, hleast⟩ :=
      convViterbi_least hmatched hn hlen (convAcsRun_eq hmatched hshape kernel)
    have hle := hleast sent hsent hflush
    rw [hcosts, codedCost_sent, Nat.le_zero] at hle
    have hcoded := eq_of_codedCost_zero
      (by rw [length_codedBits, length_codedBits, hsent, hbits]) hle
    rw [hdecoded, codedBits_injective hmatched (hbits.trans hsent.symm) hcoded.symm]

/-- Four bits and their flush through the speech code. -/
theorem convViterbi_exact_speech :
    convViterbi .scalar speechCode
        (hardBitsToSoft (convEncode speechCode
          (([true, false, true, true] ++ List.replicate 4 false).map bitByte))) 8 =
      ([true, false, true, true] ++ List.replicate 4 false).map bitByte :=
  (convViterbi_exact speechCode (Or.inr rfl) .scalar 8 (by decide)).2
    [true, false, true, true] rfl

end DsdNeo.Tetra
