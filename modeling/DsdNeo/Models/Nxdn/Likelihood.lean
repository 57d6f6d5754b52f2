import DsdNeo.Models.Nxdn.Convolution

/-!
# Least costs in the shared decoder

The metric of a state after hard steps is the least cost of a path into it, and a chainback reads
the older ends of such a path. A soft step prices the complement of a pair by what the pair leaves
of a constant, which is not its cost: the metrics are least costs exactly as long as no step says
anything, and a position of zero reliability always favours the tables' pair.
-/

namespace DsdNeo.CNXDNConvolution

open Trellis HalfRate Step List

/-- A state shifted out of its predecessor. -/
def Edge (r j : Fin 16) : Prop := r = low j ∨ r = high j

/-- The pair the branch from `r` to `j` emits: the tables' pair, or its complement. -/
def emitted (r j : Fin 16) : ℕ × ℕ :=
  let b0 := branchTable1.getD (j.val / 2) 0
  let b1 := branchTable2.getD (j.val / 2) 0
  if r.val < 8 ↔ j.val % 2 = 0 then (b0, b1) else (2 - b0, 2 - b1)

/-- Cost of a branch against two received values. -/
def hardCost (s : ℕ × ℕ) (r j : Fin 16) : ℕ :=
  absDiff (emitted r j).1 s.1 + absDiff (emitted r j).2 s.2

theorem edge_iff_code (r j : Fin 16) : code.Edge inputOf r j ↔ Edge r j := edge_iff r j

theorem hardCost_eq {s : ℕ × ℕ} (h0 : s.1 ≤ 2) (h1 : s.2 ≤ 2) {r j : Fin 16} (h : Edge r j) :
    hardCost s r j = code.branch inputOf (lanePrices 2 [s.1, s.2]) r j := by
  have htable : ∀ (s0 s1 : Fin 3) (j : Fin 16),
      hardCost (s0.val, s1.val) (low j) j =
          code.branch inputOf (lanePrices 2 [s0.val, s1.val]) (low j) j ∧
        hardCost (s0.val, s1.val) (high j) j =
          code.branch inputOf (lanePrices 2 [s0.val, s1.val]) (high j) j := by
    decide
  obtain ⟨hlow, hhigh⟩ := htable ⟨s.1, by omega⟩ ⟨s.2, by omega⟩ j
  rcases h with rfl | rfl
  · exact hlow
  · exact hhigh

theorem runSteps_old (steps : List Step) (d : Storage) :
    (runSteps steps d).old = metricsAfter (steps.map cell) d.old := by
  induction steps generalizing d with
  | nil => rfl
  | cons st steps ih =>
    rw [runSteps, foldl_cons, ← runSteps, ih, st.run_eq, Storage.advance_old]
    rfl

/-- The metrics after the first `t` of some steps, run from cleared buffers. -/
theorem old_take (steps : List Step) (d : Storage) (t : ℕ) :
    (runSteps (steps.take t) (start (init d))).old =
      metricsAt (steps.map cell) (List.Vector.replicate 16 0) t := by
  rw [runSteps_old, start_old, metricsAt, ← map_take]
  rfl

section Hard

variable {s : List (ℕ × ℕ)} (hs : ∀ p ∈ s, p.1 ≤ 2 ∧ p.2 ≤ 2)

/-- The received values of step `t`. -/
def receivedAt (s : List (ℕ × ℕ)) (t : ℕ) : ℕ × ℕ := s.getD t (0, 0)

include hs

theorem receivedAt_le (t : ℕ) : (receivedAt s t).1 ≤ 2 ∧ (receivedAt s t).2 ≤ 2 := by
  rw [receivedAt, getD_eq_getElem?_getD]
  cases h : s[t]? with
  | none => exact ⟨Nat.zero_le 2, Nat.zero_le 2⟩
  | some p => exact hs p (mem_of_getElem? h)

theorem selects_hardSteps (hlen : 4 * s.length < 2 ^ 16) {t : ℕ}
    (ht : t < ((hardSteps s).map cell).length) :
    Selects low high (code.branch inputOf (pricesAt 2 s t)) (4 * t)
      ((hardSteps s).map cell)[t] := by
  have hlt : t < s.length := by simpa using ht
  obtain ⟨h0, h1⟩ := receivedAt_le hs t
  have hcell : ((hardSteps s).map cell)[t] =
      decodeCell (receivedAt s t).1 (receivedAt s t).2 := by
    rw [receivedAt, getD_eq_getElem?_getD, getElem?_eq_getElem hlt]
    simp [hardSteps, cell]
  rw [hcell]
  exact selects_hard h0 h1 (by omega)

theorem branch_pricesAt_le (t : ℕ) (r j : Fin 16) :
    code.branch inputOf (pricesAt 2 s t) r j ≤ 4 := by
  obtain ⟨h0, h1⟩ := receivedAt_le hs t
  exact branch_le h0 h1 r j

theorem pathCost_hardCost {n : ℕ} {p : ℕ → Fin 16} (hp : IsPath Edge n p) :
    pathCost (fun t => hardCost (receivedAt s t)) n p =
      pathCost (fun t => code.branch inputOf (pricesAt 2 s t)) n p := by
  refine Finset.sum_congr rfl fun t ht => ?_
  obtain ⟨h0, h1⟩ := receivedAt_le hs t
  exact hardCost_eq h0 h1 (hp t (Finset.mem_range.mp ht))

theorem pathCosts_hardCost (n : ℕ) (j : Fin 16) :
    pathCosts (code.Edge inputOf) (fun t => code.branch inputOf (pricesAt 2 s t)) n j =
      pathCosts Edge (fun t => hardCost (receivedAt s t)) n j := by
  have hedge : code.Edge inputOf = Edge := by
    funext r j
    exact propext (edge_iff_code r j)
  rw [hedge]
  ext c
  constructor
  · rintro ⟨p, hp, hend, hcost⟩
    exact ⟨p, hp, hend, (pathCost_hardCost hs hp).trans hcost⟩
  · rintro ⟨p, hp, hend, hcost⟩
    exact ⟨p, hp, hend, (pathCost_hardCost hs hp).symm.trans hcost⟩

theorem hardSteps_spec (hlen : 4 * s.length < 2 ^ 16) {t : ℕ} (ht : t ≤ s.length) (j : Fin 16) :
    let cells := (hardSteps s).map cell
    let old : Metrics 16 := List.Vector.replicate 16 0
    (metricsAt cells old t).get j ≤ 4 * t ∧
      IsLeast (pathCosts Edge (fun t => hardCost (receivedAt s t)) t j)
        ((metricsAt cells old t).get j) ∧
      IsPath Edge t (traceback (fun t => predecessorOf (wordAt cells old t)) t j) ∧
      pathCost (fun t => hardCost (receivedAt s t)) t
          (traceback (fun t => predecessorOf (wordAt cells old t)) t j) =
        (metricsAt cells old t).get j := by
  intro cells old
  have hold : ∀ j, old.get j = 0 := fun j => List.Vector.get_replicate 0 j
  have hcells : cells.length = s.length := by simp [cells]
  have hsel : ∀ i (h : i < cells.length),
      Selects low high (code.branch inputOf (pricesAt 2 s i)) (4 * i) cells[i] :=
    fun i h => selects_hardSteps hs hlen h
  have hcost : ∀ i, i < cells.length → ∀ r j, code.branch inputOf (pricesAt 2 s i) r j ≤ 4 :=
    fun i _ => branch_pricesAt_le hs i
  let metric : ℕ → Fin 16 → ℕ := fun i => (metricsAt cells old i).get
  have hle : metric t j ≤ 4 * t := metricsAt_le hsel hcost hold (ht.trans hcells.ge) j
  have hrelaxed : ∀ i, i < t → Relaxed (code.Edge inputOf) (code.branch inputOf (pricesAt 2 s i))
      (metric i) (metric (i + 1)) :=
    fun i hi => relaxed_run hsel hcost edge_iff hold (by omega)
  have htraced : ∀ i, i < t → Traced (4 * t + 1) (code.Edge inputOf)
      (code.branch inputOf (pricesAt 2 s i)) (metric i) (metric (i + 1))
      (predecessorOf (wordAt cells old i)) :=
    fun i hi => traced_run hsel hcost edge_iff _ hold (by omega)
  have hleast := isLeast_pathCosts hrelaxed htraced (fun _ _ _ => Nat.zero_le _) hold
    (Nat.lt_succ_of_le hle)
  obtain ⟨hpath, -, hattained⟩ := traceback_spec htraced (fun _ _ _ => Nat.zero_le _)
    (Nat.lt_succ_of_le hle)
  have hpath' : IsPath Edge t (traceback (fun t => predecessorOf (wordAt cells old t)) t j) :=
    fun i hi => (edge_iff_code _ _).mp (hpath i hi)
  have hzero : ∀ r, metric 0 r = 0 := hold
  rw [pathCosts_hardCost hs] at hleast
  rw [hzero, Nat.zero_add] at hattained
  exact ⟨hle, hleast, hpath', (pathCost_hardCost hs hpath').trans hattained.symm⟩

omit hs in
/-- A chainback writes the older ends of the traced path. -/
theorem bitsOf_chainback_hard (d : Storage) (out : List ℕ) {nBits : ℕ}
    (hn : nBits ≤ s.length) (hout : nBits ≤ 8 * out.length) :
    Bytes.bitsOf (chainback out nBits (runSteps (hardSteps s) (start (init d)))).1 =
      (List.range nBits).map (fun i => decide (8 ≤ (traceback (fun t => predecessorOf
        (wordAt ((hardSteps s).map cell) (List.Vector.replicate 16 0) t)) s.length 0
          (s.length - nBits + i)).val)) ++ (Bytes.bitsOf out).drop nBits := by
  let cells := (hardSteps s).map cell
  have hcells : cells.length = s.length := by simp [cells]
  have hdp : (runSteps (hardSteps s) (start (init d))).dp = s.length := by
    rw [runSteps_dp, start_dp, length_hardSteps, Nat.zero_add]
  have hwords : ∀ t, t < s.length → (runSteps (hardSteps s) (start (init d))).decisions t =
      wordAt cells (List.Vector.replicate 16 0) t := by
    intro t ht
    have hlt : t < (decisionWords cells (List.Vector.replicate 16 0)).length := by
      rw [length_decisionWords, hcells]
      exact ht
    rw [runSteps_decisions, start_dp, start_old, if_neg (Nat.not_lt_zero t), Nat.sub_zero, wordAt]
    change ((decisionWords cells (List.Vector.replicate 16 0))[t]?).getD _ = _
    rw [getElem?_eq_getElem hlt]
    rfl
  rw [chainback, bitsOf_chainbackLoop nBits 0 _ out 0 rfl hout, hdp,
    decisionBits_congr hwords hn, decisionBits_eq _ _ _ _ hn, ← map_reverse]
  refine congrArg (· ++ _) (ext_getElem (by simp) fun i hi _ => ?_)
  have hi' : i < nBits := by simpa using hi
  have hindex : s.length - 1 - (nBits - 1 - i) = s.length - nBits + i := by omega
  simp only [getElem_map, getElem_reverse, getElem_range, length_range, hindex]
  rfl

end Hard

/-- Hard steps from cleared buffers, as many as the decision memory holds, keep in every metric the
least cost of a path into its state, no sum reaching the width of a metric, and a chainback writes
the older ends of a path of least cost into state 0. -/
theorem hard_decode_maximum_likelihood (s : List (ℕ × ℕ)) (hs : ∀ p ∈ s, p.1 ≤ 2 ∧ p.2 ≤ 2)
    (hroom : s.length ≤ 2400) (d : Storage) (out : List ℕ) (nBits : ℕ) (hn : nBits ≤ s.length)
    (hout : nBits ≤ 8 * out.length) :
    (∀ t, t ≤ s.length → ∀ j,
        IsLeast (pathCosts Edge (fun t => hardCost (receivedAt s t)) t j)
          ((runSteps (hardSteps (s.take t)) (start (init d))).old.get j) ∧
        (runSteps (hardSteps (s.take t)) (start (init d))).old.get j + m < 2 ^ 16) ∧
      ∃ p, IsPath Edge s.length p ∧ p s.length = 0 ∧
        (∀ q, IsPath Edge s.length q → q s.length = 0 →
          pathCost (fun t => hardCost (receivedAt s t)) s.length p ≤
            pathCost (fun t => hardCost (receivedAt s t)) s.length q) ∧
        Bytes.bitsOf (chainback out nBits (runSteps (hardSteps s) (start (init d)))).1 =
          (List.range nBits).map (fun i => decide (8 ≤ (p (s.length - nBits + i)).val)) ++
            (Bytes.bitsOf out).drop nBits := by
  have hlen : 4 * s.length < 2 ^ 16 := by omega
  constructor
  · intro t ht j
    obtain ⟨hle, hleast, -, -⟩ := hardSteps_spec hs hlen ht j
    have htake : hardSteps (s.take t) = (hardSteps s).take t := map_take
    rw [htake, old_take]
    refine ⟨hleast, ?_⟩
    unfold m
    omega
  · obtain ⟨-, hleast, hpath, hcost⟩ := hardSteps_spec hs hlen (le_refl s.length) 0
    refine ⟨_, hpath, traceback_self _ _ _, fun q hq hend => ?_,
      bitsOf_chainback_hard d out hn hout⟩
    rw [hcost]
    exact hleast.2 ⟨q, hq, hend, rfl⟩

/-- Four pairs, read back into one byte. -/
theorem hard_decode_maximum_likelihood_four :
    let s := [(2, 2), (0, 2), (1, 0), (2, 0)]
    (∀ t, t ≤ s.length → ∀ j,
        IsLeast (pathCosts Edge (fun t => hardCost (receivedAt s t)) t j)
          ((runSteps (hardSteps (s.take t)) (start (init Storage.zero))).old.get j) ∧
        (runSteps (hardSteps (s.take t)) (start (init Storage.zero))).old.get j + m < 2 ^ 16) ∧
      ∃ p, IsPath Edge s.length p ∧ p s.length = 0 ∧
        (∀ q, IsPath Edge s.length q → q s.length = 0 →
          pathCost (fun t => hardCost (receivedAt s t)) s.length p ≤
            pathCost (fun t => hardCost (receivedAt s t)) s.length q) ∧
        Bytes.bitsOf (chainback [0] 4 (runSteps (hardSteps s) (start (init Storage.zero)))).1 =
          (List.range 4).map (fun i => decide (8 ≤ (p (s.length - 4 + i)).val)) ++
            (Bytes.bitsOf [0]).drop 4 :=
  hard_decode_maximum_likelihood [(2, 2), (0, 2), (1, 0), (2, 0)] (by decide) (by decide)
    Storage.zero [0] 4 (by decide) (by decide)

/-- Two received values, each 0 or 2, with their reliabilities. -/
structure SoftPair where
  s0 : ℕ
  s1 : ℕ
  r0 : ℕ
  r1 : ℕ
  binary : (s0 = 0 ∨ s0 = 2) ∧ (s1 = 0 ∨ s1 = 2)
  byte : r0 ≤ 255 ∧ r1 ≤ 255

/-- The step of a pair. -/
def SoftPair.step (q : SoftPair) : Step := .soft q.s0 q.s1 q.r0 q.r1

/-- Cost of a branch against two received values, weighted. -/
def softCost (q : SoftPair) (r j : Fin 16) : ℕ :=
  (absDiff (emitted r j).1 q.s0 * q.r0 + absDiff (emitted r j).2 q.s1 * q.r1) / 128

/-- Cost of a branch at step `t`. -/
def softCostAt (steps : List SoftPair) (t : ℕ) (r j : Fin 16) : ℕ :=
  (steps[t]?).elim 0 fun q => softCost q r j

/-- Metrics that put every state but one out of reach. -/
def reachedFrom (r : Fin 16) : Metrics 16 := List.Vector.ofFn fun i => if i = r then 0 else 1000

/-- What a soft step adds to the metric of `r` on the branch to `j`. -/
def softPrice (q : SoftPair) (r j : Fin 16) : ℕ := (q.step.cell (reachedFrom r) j).1

/-- A position of zero reliability favours neither of two competing branches: the step prices them
apart as their costs do, which such a position has no part in. -/
def SoftPair.Neutral (q : SoftPair) : Prop :=
  q.r0 = 0 ∨ q.r1 = 0 → ∀ r r' j, Edge r j → Edge r' j →
    softPrice q r j + softCost q r' j = softPrice q r' j + softCost q r j

/-- Every metric is the least cost of a path into its state, after each step, and positions of
zero reliability favour no branch. -/
structure SoftExact (steps : List SoftPair) (d : Storage) : Prop where
  least : ∀ t, t ≤ steps.length → ∀ j,
    IsLeast (pathCosts Edge (softCostAt steps) t j)
      ((runSteps ((steps.map SoftPair.step).take t) (start (init d))).old.get j)
  neutral : ∀ q ∈ steps, q.Neutral

/-- A step that says nothing: every branch cost is floored to zero. -/
def SoftPair.Silent (q : SoftPair) : Prop := q.r0 + q.r1 ≤ 63

theorem absDiff_emitted_le (r j : Fin 16) {s : ℕ} (h : s = 0 ∨ s = 2) :
    absDiff (emitted r j).1 s ≤ 2 ∧ absDiff (emitted r j).2 s ≤ 2 := by
  have htable : ∀ (r j : Fin 16) (b : Bool),
      absDiff (emitted r j).1 (2 * b.toNat) ≤ 2 ∧ absDiff (emitted r j).2 (2 * b.toNat) ≤ 2 := by
    decide
  rcases h with rfl | rfl
  · exact htable r j false
  · exact htable r j true

theorem softCost_of_silent {q : SoftPair} (h : q.Silent) (r j : Fin 16) : softCost q r j = 0 := by
  obtain ⟨h0, -⟩ := absDiff_emitted_le r j q.binary.1
  obtain ⟨-, h1⟩ := absDiff_emitted_le r j q.binary.2
  have hlow := Nat.mul_le_mul_right q.r0 h0
  have hhigh := Nat.mul_le_mul_right q.r1 h1
  rw [SoftPair.Silent] at h
  exact Nat.div_eq_of_lt (by omega)

/-- The branch the tables' pair is taken from. -/
def tableFrom (j : Fin 16) : Fin 16 := if j.val % 2 = 0 then low j else high j

/-- The other branch, of the complement. -/
def complementFrom (j : Fin 16) : Fin 16 := if j.val % 2 = 0 then high j else low j

theorem emitted_tableFrom (j : Fin 16) : emitted (tableFrom j) j =
    (branchTable1.getD (j.val / 2) 0, branchTable2.getD (j.val / 2) 0) := by
  revert j
  decide

/-- The cost of the tables' pair stays below the constant it is taken from. -/
theorem softCost_tableFrom_le (q : SoftPair) (j : Fin 16) : softCost q (tableFrom j) j ≤ 7 := by
  obtain ⟨h0, -⟩ := absDiff_emitted_le (tableFrom j) j q.binary.1
  obtain ⟨-, h1⟩ := absDiff_emitted_le (tableFrom j) j q.binary.2
  have hlow := Nat.mul_le_mul h0 q.byte.1
  have hhigh := Nat.mul_le_mul h1 q.byte.2
  rw [softCost]
  omega

/-- A soft step prices the tables' pair at its cost and the complement at the rest of eight. -/
theorem softCell_eq (q : SoftPair) {old : Metrics 16} (hold : ∀ r, old.get r ≤ 1000) (j : Fin 16) :
    (q.step.cell old j).1 = min (old.get (tableFrom j) + softCost q (tableFrom j) j)
      (old.get (complementFrom j) + (8 - softCost q (tableFrom j) j)) := by
  have hseven := softCost_tableFrom_le q j
  have hfull : fullMetric = 8 := rfl
  have hmetric : min ((absDiff (branchTable1.getD (j.val / 2) 0) q.s0 * q.r0 +
      absDiff (branchTable2.getD (j.val / 2) 0) q.s1 * q.r1) / 128) fullMetric =
      softCost q (tableFrom j) j := by
    rw [softCost, emitted_tableFrom] at hseven ⊢
    rw [hfull]
    exact min_eq_left (Nat.le_succ_of_le hseven)
  have hlow := hold (low j)
  have hhigh := hold (high j)
  rw [SoftPair.step, cell, decodeSoftCell, tableFrom, complementFrom]
  rw [tableFrom] at hmetric hseven
  dsimp only
  by_cases hj : j.val % 2 = 0
  · simp only [if_pos hj] at hmetric hseven ⊢
    rw [hmetric, hfull]
    split <;> omega
  · simp only [if_neg hj] at hmetric hseven ⊢
    rw [hmetric, hfull]
    split <;> omega

theorem softCell_cleared (q : SoftPair) (j : Fin 16) :
    (q.step.cell (List.Vector.replicate 16 0) j).1 =
      min (softCost q (tableFrom j) j) (8 - softCost q (tableFrom j) j) := by
  have hzero : ∀ r : Fin 16, (List.Vector.replicate 16 0 : Metrics 16).get r = 0 :=
    fun r => List.Vector.get_replicate 0 r
  rw [softCell_eq q (fun r => (hzero r).trans_le (Nat.zero_le _)), hzero, hzero, Nat.zero_add,
    Nat.zero_add]

theorem edge_tableFrom (j : Fin 16) : Edge (tableFrom j) j ∧ Edge (complementFrom j) j := by
  rw [tableFrom, complementFrom]
  split
  · exact ⟨Or.inl rfl, Or.inr rfl⟩
  · exact ⟨Or.inr rfl, Or.inl rfl⟩

theorem softPrice_tableFrom (q : SoftPair) (j : Fin 16) :
    softPrice q (tableFrom j) j = softCost q (tableFrom j) j ∧
      softPrice q (complementFrom j) j = 8 - softCost q (tableFrom j) j := by
  have hget : ∀ r i, (reachedFrom r).get i = if i = r then 0 else 1000 :=
    fun r i => List.Vector.get_ofFn _ i
  have hfar : ∀ r i, (reachedFrom r).get i ≤ 1000 := by
    intro r i
    rw [hget]
    split <;> decide
  have hne : tableFrom j ≠ complementFrom j := by
    revert j
    decide
  have hseven := softCost_tableFrom_le q j
  constructor
  · rw [softPrice, softCell_eq q (hfar _), hget, hget, if_pos rfl, if_neg hne.symm]
    omega
  · rw [softPrice, softCell_eq q (hfar _), hget, hget, if_neg hne, if_pos rfl]
    omega

/-- A step is neutral exactly when neither of its positions has zero reliability. -/
theorem neutral_iff (q : SoftPair) : q.Neutral ↔ q.r0 ≠ 0 ∧ q.r1 ≠ 0 := by
  constructor
  · intro h
    rw [← not_or]
    intro hzero
    have hpriced := h hzero (tableFrom 0) (complementFrom 0) 0 (edge_tableFrom 0).1
      (edge_tableFrom 0).2
    obtain ⟨htable, hcomplement⟩ := softPrice_tableFrom q 0
    rw [htable, hcomplement] at hpriced
    -- with one reliability zero no cost is above three
    have hfew : ∀ r, softCost q r 0 ≤ 3 := by
      intro r
      obtain ⟨h0, -⟩ := absDiff_emitted_le r 0 q.binary.1
      obtain ⟨-, h1⟩ := absDiff_emitted_le r 0 q.binary.2
      have hlow := Nat.mul_le_mul h0 q.byte.1
      have hhigh := Nat.mul_le_mul h1 q.byte.2
      rw [softCost]
      rcases hzero with hr | hr
      · rw [hr, Nat.mul_zero, Nat.zero_add]
        omega
      · rw [hr, Nat.mul_zero, Nat.add_zero]
        omega
    have h3 := hfew (tableFrom 0)
    have h3' := hfew (complementFrom 0)
    omega
  · rintro ⟨h0, h1⟩ (hzero | hzero)
    · exact absurd hzero h0
    · exact absurd hzero h1

theorem exists_opposite (q : SoftPair) :
    ∃ j, softCost q (tableFrom j) j = (2 * q.r0 + 2 * q.r1) / 128 ∧
      softCost q (complementFrom j) j = 0 := by
  have htable : ∀ b0 b1 : Bool, ∃ j : Fin 16,
      absDiff (emitted (tableFrom j) j).1 (2 * b0.toNat) = 2 ∧
        absDiff (emitted (tableFrom j) j).2 (2 * b1.toNat) = 2 ∧
        absDiff (emitted (complementFrom j) j).1 (2 * b0.toNat) = 0 ∧
        absDiff (emitted (complementFrom j) j).2 (2 * b1.toNat) = 0 := by
    decide
  have hbit : ∀ {v : ℕ}, v = 0 ∨ v = 2 → ∃ b : Bool, v = 2 * b.toNat := by
    rintro v (rfl | rfl)
    · exact ⟨false, rfl⟩
    · exact ⟨true, rfl⟩
  obtain ⟨b0, h0⟩ := hbit q.binary.1
  obtain ⟨b1, h1⟩ := hbit q.binary.2
  obtain ⟨j, ht0, ht1, hc0, hc1⟩ := htable b0 b1
  refine ⟨j, ?_, ?_⟩
  · rw [softCost, h0, h1, ht0, ht1]
  · rw [softCost, h0, h1, hc0, hc1, Nat.zero_mul, Nat.zero_mul]

section Soft

variable (steps : List SoftPair) (d : Storage)

/-- The metrics after the first `t` soft steps from cleared buffers. -/
def softMetrics (t : ℕ) : Metrics 16 :=
  (runSteps ((steps.map SoftPair.step).take t) (start (init d))).old

variable {steps d}

variable {t : ℕ}

theorem softMetrics_succ {q : SoftPair} (hq : steps[t]? = some q)
    (hzero : softMetrics steps d t = List.Vector.replicate 16 0) (j : Fin 16) :
    (softMetrics steps d (t + 1)).get j =
      min (softCost q (tableFrom j) j) (8 - softCost q (tableFrom j) j) := by
  have hlt : t < ((steps.map SoftPair.step).map cell).length := by
    simpa using (List.getElem?_eq_some_iff.mp hq).1
  have hcell : ((steps.map SoftPair.step).map cell)[t] = q.step.cell := by
    simp only [getElem_map, (List.getElem?_eq_some_iff.mp hq).2]
  rw [softMetrics, old_take] at hzero
  rw [softMetrics, old_take, metricsAt_succ hlt, hcell, hzero, Cells.metrics,
    List.Vector.get_ofFn, softCell_cleared]

theorem softMetrics_of_silent (ht : t ≤ steps.length)
    (h : ∀ i, i < t → ∀ q, steps[i]? = some q → q.Silent) :
    softMetrics steps d t = List.Vector.replicate 16 0 := by
  induction t with
  | zero => rfl
  | succ t ih =>
    have hzero := ih (by omega) fun i hi => h i (by omega)
    have hq : steps[t]? = some steps[t] := getElem?_eq_getElem (by omega)
    refine List.Vector.ext fun j => ?_
    rw [softMetrics_succ hq hzero, softCost_of_silent (h t (by omega) _ hq),
      List.Vector.get_replicate]
    rfl

/-- There is a path into every state. -/
theorem exists_path (t : ℕ) (j : Fin 16) : ∃ p, IsPath Edge t p ∧ p t = j := by
  refine ⟨traceback (fun _ => low) t j, fun i hi => ?_, traceback_self _ t j⟩
  rw [traceback_pred _ _ hi]
  exact Or.inl rfl

theorem pathCost_of_silent (h : ∀ i, i < t → ∀ q, steps[i]? = some q → q.Silent) (p : ℕ → Fin 16) :
    pathCost (softCostAt steps) t p = 0 := by
  refine Finset.sum_eq_zero fun i hi => ?_
  rw [softCostAt]
  cases hq : steps[i]? with
  | none => rfl
  | some q => exact softCost_of_silent (h i (Finset.mem_range.mp hi) q hq) _ _

theorem not_exact_of_loud {q : SoftPair} (hq : steps[t]? = some q) (hloud : ¬ q.Silent)
    (h : ∀ i, i < t → ∀ q, steps[i]? = some q → q.Silent) : ¬ SoftExact steps d := by
  intro hexact
  have hlt : t < steps.length := (List.getElem?_eq_some_iff.mp hq).1
  obtain ⟨j, htable, hcomplement⟩ := exists_opposite q
  obtain ⟨p, hp, hend⟩ := exists_path t (complementFrom j)
  have hmetric := softMetrics_succ hq (softMetrics_of_silent (d := d) hlt.le h) j
  rw [htable] at hmetric
  -- the path into `j` through the complement
  let last : ℕ → Fin 16 := fun i => if i ≤ t then p i else j
  have hbefore : ∀ {i}, i ≤ t → last i = p i := fun hi => if_pos hi
  have hafter : last (t + 1) = j := if_neg (by omega)
  have hpath : IsPath Edge (t + 1) last := by
    intro i hi
    by_cases hi' : i < t
    · rw [hbefore hi'.le, hbefore hi']
      exact hp i hi'
    · obtain rfl : i = t := by omega
      rw [hbefore le_rfl, hafter, hend]
      exact (edge_tableFrom j).2
  have hcost : pathCost (softCostAt steps) (t + 1) last = 0 := by
    rw [pathCost_succ, pathCost_of_silent h, Nat.zero_add, hbefore le_rfl, hafter, hend, softCostAt,
      hq]
    exact hcomplement
  have hleast := (hexact.least (t + 1) hlt j).2 ⟨last, hpath, hafter, hcost⟩
  rw [show (runSteps ((steps.map SoftPair.step).take (t + 1)) (start (init d))).old.get j =
    (softMetrics steps d (t + 1)).get j from rfl, hmetric] at hleast
  have h0 := q.byte.1
  have h1 := q.byte.2
  rw [SoftPair.Silent] at hloud
  omega

end Soft

/-- Soft steps are exact exactly when every step is silent and has no position of zero
reliability. -/
theorem soft_decode_exact_iff (steps : List SoftPair) (d : Storage) :
    SoftExact steps d ↔ ∀ q ∈ steps, q.r0 + q.r1 ≤ 63 ∧ q.r0 ≠ 0 ∧ q.r1 ≠ 0 := by
  classical
  constructor
  · intro hexact q hmem
    refine ⟨?_, (neutral_iff q).mp (hexact.neutral q hmem)⟩
    by_contra hloud
    obtain ⟨i, hi⟩ := mem_iff_getElem?.mp hmem
    have hex : ∃ i, ∃ q : SoftPair, steps[i]? = some q ∧ ¬ q.Silent := ⟨i, q, hi, hloud⟩
    obtain ⟨q, hq, hnotSilent⟩ := Nat.find_spec hex
    refine not_exact_of_loud (d := d) hq hnotSilent (fun k hk q' hq' => ?_) hexact
    by_contra hsilent
    exact Nat.find_min hex hk ⟨q', hq', hsilent⟩
  · intro h
    refine ⟨fun t ht j => ?_, fun q hq => (neutral_iff q).mpr (h q hq).2⟩
    have hsilent : ∀ i, i < t → ∀ q, steps[i]? = some q → q.Silent :=
      fun i _ q hq => (h q (mem_of_getElem? hq)).1
    have hzero := softMetrics_of_silent (d := d) ht hsilent
    rw [softMetrics] at hzero
    rw [hzero, List.Vector.get_replicate]
    obtain ⟨p, hp, hend⟩ := exists_path t j
    refine ⟨⟨p, hp, hend, pathCost_of_silent hsilent p⟩, ?_⟩
    rintro c ⟨q, -, -, rfl⟩
    exact Nat.zero_le _

/-- A pair received for certain in its first position and punctured in its second. -/
def puncturedPair : SoftPair := ⟨2, 0, 255, 0, by decide, by decide⟩

/-- The complement that agrees with the certain bit is priced above the pair that does not. -/
theorem soft_decode_not_least : ¬ ∀ (steps : List SoftPair) (d : Storage), SoftExact steps d := by
  intro h
  have hleast := ((h [puncturedPair] Storage.zero).least 1 le_rfl 0).2
  have hpath : IsPath Edge 1 fun i => if i = 0 then 8 else 0 := by
    intro t ht
    obtain rfl : t = 0 := by omega
    exact Or.inr rfl
  have hcost : pathCost (softCostAt [puncturedPair]) 1 (fun i => if i = 0 then 8 else 0) = 0 := by
    decide
  have hmetric : (runSteps (([puncturedPair].map SoftPair.step).take 1)
      (start (init Storage.zero))).old.get 0 = 3 := by
    decide
  have hle := hleast ⟨_, hpath, rfl, hcost⟩
  rw [hmetric] at hle
  omega

end DsdNeo.CNXDNConvolution
