import DsdNeo.Models.Fec.Rs129
import Mathlib.Algebra.BigOperators.Fin
import Mathlib.Tactic.LinearCombination

/-!
# The Reed-Solomon (12,9) correction is exact

A word is of the code when its polynomial vanishes at the first three powers of the primitive
element. One wrong symbol leaves the syndromes of a single power, from which the three steps find
its location and the evaluator its value, so that every word beside the code is corrected.
-/

namespace DsdNeo.Fec.Rs129

open Galois Locating List Function

/-- Value of a word's polynomial at power `j + 1` of the primitive element. -/
def value (w : Word) (j : ℕ) : Gf256 := ∑ i : Fin 12, gf (w i) * power ((j + 1) * (11 - i.val))

/-- The words of the code. -/
def IsCodeword (w : Word) : Prop := ∀ j, j < 3 → value w j = 0

/-- Horner's rule over the first symbols. -/
theorem gf_horner (w : Word) (x : Byte) (n : ℕ) :
    gf ((List.range n).foldl (fun s i => w (Fin.ofNat 12 i) ^^^ galoisMultiplication x s) 0) =
      ∑ i ∈ Finset.range n, gf (w (Fin.ofNat 12 i)) * gf x ^ (n - 1 - i) := by
  induction n with
  | zero => rfl
  | succ n ih =>
    rw [range_succ, foldl_append, foldl_cons, foldl_nil, gf_xor,
      gf_galoisMultiplication, ih, Finset.sum_range_succ, Nat.add_sub_cancel, Nat.sub_self,
      pow_zero, mul_one, add_comm, Finset.mul_sum]
    congr 1
    refine Finset.sum_congr rfl fun i hi => ?_
    have hi := Finset.mem_range.mp hi
    rw [show n - i = n - 1 - i + 1 by omega, pow_succ]
    ring

theorem gf_calcSyndrome (w : Word) (stale : Poly) {j : Fin 6} (hj : j.val < 3) :
    gf (calcSyndrome w stale j) = value w j.val := by
  have hsymbol : ∀ i : Fin 12, Fin.ofNat 12 i.val = i := fun i => Fin.ext (Nat.mod_eq_of_lt i.isLt)
  rw [calcSyndrome, if_pos hj, gf_horner, ← Fin.sum_univ_eq_sum_range
    (fun i => gf (w (Fin.ofNat 12 i)) * gf (galoisExpTableGet (j.val + 1)) ^ (12 - 1 - i)) 12]
  refine Finset.sum_congr rfl fun i _ => ?_
  rw [hsymbol, gf_galoisExpTableGet (by omega), Nat.mul_comm, power_mul_eq_pow]

theorem at_calcSyndrome (w : Word) (stale : Poly) {j : ℕ} (hj : j < 3) :
    gf (Poly.at (calcSyndrome w stale) j) = value w j := by
  have hval : (Fin.ofNat 6 j).val = j := Nat.mod_eq_of_lt (by omega)
  rw [Poly.at, gf_calcSyndrome w stale (by rw [hval]; exact hj), hval]

/-- No syndrome is left exactly where the word is of the code. -/
theorem checkSyndrome_eq_false (w : Word) (stale : Poly) :
    checkSyndrome (calcSyndrome w stale) = false ↔ IsCodeword w := by
  rw [checkSyndrome, any_eq_false]
  constructor
  · intro h j hj
    have hzero := h j (mem_range.mpr hj)
    rw [← at_calcSyndrome w stale hj, gf_eq_zero]
    simpa using hzero
  · intro h j hj
    have hj := mem_range.mp hj
    have hzero := h j hj
    rw [← at_calcSyndrome w stale hj, gf_eq_zero] at hzero
    simpa using hzero

theorem value_update (w : Word) (i : Fin 12) (e : Byte) (j : ℕ) :
    value (update w i (w i ^^^ e)) j = value w j + gf e * power (11 - i.val) ^ (j + 1) := by
  rw [value, value, ← Finset.add_sum_erase _ _ (Finset.mem_univ i),
    ← Finset.add_sum_erase Finset.univ (fun i => gf (w i) * power ((j + 1) * (11 - i.val)))
      (Finset.mem_univ i), update_self, gf_xor,
    power_mul_eq_pow]
  have hrest : ∑ k ∈ Finset.univ.erase i,
      gf (update w i (w i ^^^ e) k) * power ((j + 1) * (11 - k.val)) =
        ∑ k ∈ Finset.univ.erase i, gf (w k) * power ((j + 1) * (11 - k.val)) := by
    refine Finset.sum_congr rfl fun k hk => ?_
    rw [update_of_ne (Finset.mem_erase.mp hk).1]
  rw [hrest]
  ring

/-- Two words at distance one differ by one symbol's error. -/
theorem exists_error {w c : Word} (h : hammingDist w c = 1) :
    ∃ i e, e ≠ 0 ∧ w = update c i (c i ^^^ e) := by
  obtain ⟨i, hi⟩ := Finset.card_eq_one.mp h
  have hdiff : ∀ k, w k ≠ c k ↔ k = i := by
    intro k
    have hmem := Finset.ext_iff.mp hi k
    simpa using hmem
  refine ⟨i, c i ^^^ w i, ?_, ?_⟩
  · intro hxor
    exact (hdiff i).mpr rfl (BitVec.xor_eq_zero_iff.mp hxor).symm
  · funext k
    by_cases hk : k = i
    · subst k
      rw [update_self, ← BitVec.xor_assoc, BitVec.xor_self, BitVec.zero_xor]
    · rw [update_of_ne hk]
      exact not_not.mp fun hne => hk ((hdiff k).mp hne)

section Single

variable {syndrome : Poly} {e x : Gf256}

theorem gf_computeDiscrepancy (locator syndrome : Poly) (L n : ℕ) :
    gf (computeDiscrepancy locator syndrome L n) =
      ∑ i ∈ Finset.range (L + 1), gf (Poly.at locator i) * gf (Poly.at syndrome (n - i)) := by
  rw [computeDiscrepancy, gf_xorSum]
  exact Finset.sum_congr rfl fun i _ => gf_galoisMultiplication _ _

variable {s : Locating}

theorem calculateStep_of_zero {n : ℕ} (hd : computeDiscrepancy s.locator syndrome s.L n = 0) :
    calculateStep syndrome n s = { s with D := multiplyPolyZ s.D } := by
  simp only [calculateStep, hd, ne_eq, not_true_eq_false, ite_false]

theorem calculateStep_of_long {n : ℕ} (hd : computeDiscrepancy s.locator syndrome s.L n ≠ 0)
    (hL : ¬ (s.L : ℤ) < n - s.k) :
    calculateStep syndrome n s =
      { s with
        D := multiplyPolyZ s.D
        locator := fun i => s.locator i ^^^
          galoisMultiplication (computeDiscrepancy s.locator syndrome s.L n) (s.D i) } := by
  simp only [calculateStep, if_pos hd, if_neg hL]

theorem calculateStep_of_short {n : ℕ} (hd : computeDiscrepancy s.locator syndrome s.L n ≠ 0)
    (hL : (s.L : ℤ) < n - s.k) :
    calculateStep syndrome n s =
      { L := (n - s.k).toNat
        k := n - s.L
        D := multiplyPolyZ fun i => galoisMultiplication (s.locator i)
          (galoisInv (computeDiscrepancy s.locator syndrome s.L n))
        locator := fun i => s.locator i ^^^
          galoisMultiplication (computeDiscrepancy s.locator syndrome s.L n) (s.D i) } := by
  simp only [calculateStep, if_pos hd, if_pos hL]

/-- A polynomial of degree one, over the field. -/
def IsLine (p : Poly) (a b : Gf256) : Prop :=
  ∀ i : Fin 6, gf (p i) = if i.val = 0 then a else if i.val = 1 then b else 0

variable {a b : Gf256} {p : Poly}

theorem IsLine.at (h : IsLine p a b) (i : ℕ) (hi : i < 6) :
    gf (Poly.at p i) = if i = 0 then a else if i = 1 then b else 0 := by
  have hval : (Fin.ofNat 6 i).val = i := Nat.mod_eq_of_lt hi
  rw [Poly.at, h, hval]

theorem IsLine.multiplyPolyZ (h : IsLine p a 0) : IsLine (multiplyPolyZ p) 0 a := by
  intro i
  rw [Rs129.multiplyPolyZ]
  by_cases hi : i.val = 0
  · rw [if_pos hi, if_pos hi]
    rfl
  · rw [if_neg hi, if_neg hi, h.at _ (by omega)]
    by_cases hone : i.val = 1
    · simp [hone]
    · rw [if_neg (by omega), if_neg hone]
      simp

/-- A line less a multiple of another. -/
theorem IsLine.sub {q : Poly} {c d : Gf256} (hp : IsLine p a b) (hq : IsLine q c d) (m : Byte) :
    IsLine (fun i => p i ^^^ galoisMultiplication m (q i)) (a + gf m * c) (b + gf m * d) := by
  intro i
  rw [gf_xor, gf_galoisMultiplication, hp i, hq i]
  split
  · rfl
  · split
    · rfl
    · rw [mul_zero, add_zero]

theorem discrepancy_line (hp : IsLine p a b) (n : ℕ) :
    gf (computeDiscrepancy p syndrome 1 (n + 1)) =
      a * gf (Poly.at syndrome (n + 1)) + b * gf (Poly.at syndrome n) := by
  rw [gf_computeDiscrepancy, Finset.sum_range_succ, Finset.sum_range_one, hp.at 0 (by decide),
    hp.at 1 (by decide)]
  rfl

variable (he : e ≠ 0) (hx : x ≠ 0)
  (hS : ∀ j, j < 3 → gf (Poly.at syndrome j) = e * x ^ (j + 1))

include he hx hS

/-- The first step takes the syndrome for the slope. -/
theorem step_zero : ∃ s, calculateStep syndrome 0 Locating.start = s ∧ s.L = 1 ∧ s.k = 0 ∧
    IsLine s.locator 1 (e * x) ∧ IsLine s.D 0 (e * x)⁻¹ := by
  have hd : gf (computeDiscrepancy Locating.start.locator syndrome Locating.start.L 0) = e * x := by
    rw [gf_computeDiscrepancy, show Locating.start.L = 0 from rfl, Finset.sum_range_one,
      hS 0 (by decide),
      pow_one]
    exact one_mul _
  have hne : computeDiscrepancy Locating.start.locator syndrome Locating.start.L 0 ≠ 0 := by
    rw [ne_eq, ← gf_eq_zero, hd]
    exact mul_ne_zero he hx
  have hone : IsLine Locating.start.locator 1 0 := by
    intro i
    simp only [Locating.start]
    split
    · rfl
    · exact (ite_self 0).symm
  have hz : IsLine Locating.start.D 0 1 := by
    intro i
    simp only [Locating.start]
    by_cases hi : i.val = 1
    · rw [if_pos hi, if_neg (by omega), if_pos hi]
      rfl
    · rw [if_neg hi, if_neg hi, ite_self]
      rfl
  refine ⟨_, calculateStep_of_short hne (by decide), rfl, rfl, ?_, ?_⟩
  · have hline :=
      hone.sub hz (computeDiscrepancy Locating.start.locator syndrome Locating.start.L 0)
    rwa [hd, mul_zero, mul_one, add_zero, zero_add] at hline
  · refine IsLine.multiplyPolyZ fun i => ?_
    rw [gf_galoisMultiplication, gf_galoisInv hne, hd, hone i]
    split
    · rw [one_mul]
    · simp

/-- The second step finds the location. -/
theorem step_one (hL : s.L = 1) (hk : s.k = 0) (hline : IsLine s.locator 1 (e * x))
    (hD : IsLine s.D 0 (e * x)⁻¹) :
    (calculateStep syndrome 1 s).L = 1 ∧ IsLine (calculateStep syndrome 1 s).locator 1 x := by
  have hd : gf (computeDiscrepancy s.locator syndrome s.L 1) = e * x ^ 2 + e * x * (e * x) := by
    rw [hL, discrepancy_line hline 0, hS 0 (by decide), hS 1 (by decide)]
    ring
  have hex : e * x ≠ 0 := mul_ne_zero he hx
  have hslope : e * x + (e * x ^ 2 + e * x * (e * x)) * (e * x)⁻¹ = x := by
    have hdiv : (e * x ^ 2 + e * x * (e * x)) * (e * x)⁻¹ = x + e * x := by
      field_simp
    rw [hdiv, ← add_assoc, add_comm (e * x) x, add_assoc, Galois.Register.Element.add_self,
      add_zero]
  by_cases hne : computeDiscrepancy s.locator syndrome s.L 1 = 0
  · rw [calculateStep_of_zero hne]
    refine ⟨hL, ?_⟩
    rw [← gf_eq_zero, hd] at hne
    rw [hne, zero_mul, add_zero] at hslope
    rwa [hslope] at hline
  · rw [calculateStep_of_long hne (by rw [hL, hk]; decide)]
    refine ⟨hL, ?_⟩
    have hsub := hline.sub hD (computeDiscrepancy s.locator syndrome s.L 1)
    rwa [hd, hslope, mul_zero, add_zero] at hsub

theorem locator_single : IsLine (calculate syndrome).1 1 x := by
  obtain ⟨s, hs, hL, hk, hline, hD⟩ := step_zero he hx hS
  obtain ⟨hL', hline'⟩ := step_one he hx hS hL hk hline hD
  have hrun : (calculate syndrome).1 =
      (calculateStep syndrome 2 (calculateStep syndrome 1
        (calculateStep syndrome 0 Locating.start))).locator := by
    simp only [calculate, range_succ, range_zero, nil_append, cons_append, foldl_cons, foldl_nil]
  have hd : computeDiscrepancy (calculateStep syndrome 1 s).locator syndrome
      (calculateStep syndrome 1 s).L 2 = 0 := by
    rw [← gf_eq_zero, hL', discrepancy_line hline' 1, hS 1 (by decide), hS 2 (by decide),
      show 1 * (e * x ^ (2 + 1)) + x * (e * x ^ (1 + 1)) = e * x ^ 3 + e * x ^ 3 by ring,
      Galois.Register.Element.add_self]
  rw [hrun, hs, calculateStep_of_zero hd]
  exact hline'

omit he hx in
theorem evaluator_single (hp : IsLine p 1 x) :
    IsLine (calcErrorEvaluatorPoly p syndrome) (e * x) 0 := by
  have hterm : ∀ i j, gf (scaledShifted p syndrome i j) =
      if j < i then 0
      else if j - i < 6 then gf (Poly.at syndrome (j - i)) * gf (Poly.at p i) else 0 := by
    intro i j
    rw [scaledShifted]
    split
    · rfl
    · split
      · exact gf_galoisMultiplication _ _
      · rfl
  have hzero : ∀ i, 2 ≤ i → i < 6 → gf (Poly.at p i) = 0 := by
    intro i hi hi6
    rw [hp.at i hi6, if_neg (by omega), if_neg (by omega)]
  have hproduct : ∀ j, j < 3 → gf (multiplicatePolys p syndrome j) =
      gf (Poly.at syndrome j) + (if j = 0 then 0 else gf (Poly.at syndrome (j - 1)) * x) := by
    intro j hj
    have h0 := hp.at 0 (by decide)
    have h1 := hp.at 1 (by decide)
    rw [multiplicatePolys, gf_xorSum, Finset.sum_range_succ, Finset.sum_range_succ,
      Finset.sum_range_succ, Finset.sum_range_succ, Finset.sum_range_succ, Finset.sum_range_one]
    simp only [hterm, hzero 2 le_rfl (by decide), hzero 3 (by decide) (by decide),
      hzero 4 (by decide) (by decide), hzero 5 (by decide) (by decide), h0, h1, mul_zero, ite_self,
      add_zero, mul_one, ite_true, Nat.one_ne_zero, ite_false, Nat.sub_zero, Nat.not_lt_zero,
      Nat.lt_one_iff, show j < 6 by omega, show j - 1 < 6 by omega]
  intro i
  rw [calcErrorEvaluatorPoly]
  by_cases hi : i.val < 3
  · rw [if_pos hi, hproduct _ hi, hS _ hi]
    by_cases hi0 : i.val = 0
    · rw [if_pos hi0, if_pos hi0, hi0]
      ring
    · rw [if_neg hi0, if_neg hi0, ite_self, hS _ (by omega),
        show i.val - 1 + 1 = i.val by omega, mul_assoc, ← pow_succ,
        Galois.Register.Element.add_self]
  · rw [if_neg hi, if_neg (by omega), ite_self]
    rfl

end Single

section Location

variable {locator evaluator : Poly} {i : ℕ}

theorem findRoots_line (h : IsLine locator 1 (power i)) (hi : i < 12) :
    findRoots locator = [i] := by
  have hroot : ∀ r, r ∈ List.range' 1 255 → (decide (xorSum 4 (fun k => galoisMultiplication
      (galoisExpTableGet (k * r % 255)) (Poly.at locator k)) = 0) = (r == 255 - i)) := by
    intro r hr
    have hr := mem_range'_1.mp hr
    have hsum : gf (xorSum 4 fun k => galoisMultiplication
        (galoisExpTableGet (k * r % 255)) (Poly.at locator k)) = 1 + power (r + i) := by
      rw [gf_xorSum, Finset.sum_range_succ, Finset.sum_range_succ, Finset.sum_range_succ,
        Finset.sum_range_one]
      simp only [gf_galoisMultiplication, gf_galoisExpTableGet_mod, h.at 0 (by decide),
        h.at 1 (by decide), h.at 2 (by decide), h.at 3 (by decide)]
      simp only [ite_true, Nat.one_ne_zero, OfNat.ofNat_ne_zero, OfNat.ofNat_ne_one, ite_false,
        mul_zero, add_zero, mul_one, Nat.zero_mul, Nat.one_mul, power_mul_power]
      rfl
    have hone : (1 : Gf256) = power 0 := rfl
    rw [Bool.eq_iff_iff, decide_eq_true_iff, beq_iff_eq, ← gf_eq_zero, hsum,
      CharTwo.add_eq_zero, hone, power_inj]
    omega
  rw [findRoots, filter_congr hroot, filter_beq]
  have hcount : (List.range' 1 255).count (255 - i) = 1 :=
    count_eq_one_of_mem nodup_range' (mem_range'_1.mpr (by omega))
  rw [hcount, replicate_one, map_singleton, show 255 - (255 - i) = i by omega]

theorem errorValue_line {e : Byte} (hloc : IsLine locator 1 (power i))
    (hev : IsLine evaluator (gf e * power i) 0) : errorValue locator evaluator i = e := by
  have hnum : gf (xorSum 6 fun j => galoisMultiplication (Poly.at evaluator j)
      (galoisExpTableGet ((255 - i) * j % 255))) = gf e * power i := by
    have hterm : ∀ j, 1 ≤ j → j < 6 → gf (Poly.at evaluator j) = 0 := by
      intro j hj hj6
      rw [hev.at j hj6, if_neg (by omega), ite_self]
    rw [gf_xorSum, Finset.sum_eq_single 0]
    · rw [gf_galoisMultiplication, gf_galoisExpTableGet_mod, hev.at 0 (by decide), if_pos rfl]
      exact mul_one _
    · intro j hj hne
      rw [gf_galoisMultiplication, hterm j (by omega) (Finset.mem_range.mp hj), zero_mul]
    · intro h
      exact absurd (Finset.mem_range.mpr (by decide)) h
  have hdenom : gf (xorSum 3 fun m => galoisMultiplication (Poly.at locator (2 * m + 1))
      (galoisExpTableGet ((255 - i) * (2 * m) % 255))) = power i := by
    rw [gf_xorSum, Finset.sum_eq_single 0]
    · rw [gf_galoisMultiplication, gf_galoisExpTableGet_mod, hloc.at 1 (by decide),
        if_neg (by decide), if_pos rfl]
      exact mul_one _
    · intro m hm hne
      have hm := Finset.mem_range.mp hm
      rw [gf_galoisMultiplication, hloc.at _ (by omega), if_neg (by omega), if_neg (by omega),
        zero_mul]
    · intro h
      exact absurd (Finset.mem_range.mpr (by decide)) h
  have hne : (xorSum 3 fun m => galoisMultiplication (Poly.at locator (2 * m + 1))
      (galoisExpTableGet ((255 - i) * (2 * m) % 255))) ≠ 0 := by
    rw [ne_eq, ← gf_eq_zero, hdenom]
    exact power_ne_zero i
  refine gf_injective ?_
  rw [errorValue, gf_galoisMultiplication, gf_galoisInv hne, hnum, hdenom,
    mul_inv_cancel_right₀ (power_ne_zero i)]

end Location

/-- One wrong symbol in a word of the code is put right. -/
theorem correctErrors_single {c : Word} (hc : IsCodeword c) (i : Fin 12) {e : Byte} (he : e ≠ 0)
    (stale stale' : Poly) :
    correctErrors (update c i (c i ^^^ e))
      (calcSyndrome (update c i (c i ^^^ e)) stale) stale' = ⟨.errorsCorrected, c, 1⟩ := by
  generalize hw : update c i (c i ^^^ e) = w
  have hvalue : ∀ j, j < 3 → value w j = gf e * power (11 - i.val) ^ (j + 1) := by
    intro j hj
    rw [← hw, value_update, hc j hj, zero_add]
  have hgf : gf e ≠ 0 := fun h => he (gf_eq_zero.mp h)
  have hS : ∀ j, j < 3 → gf (Poly.at (calcSyndrome w stale) j) =
      gf e * power (11 - i.val) ^ (j + 1) := by
    intro j hj
    rw [at_calcSyndrome w stale hj, hvalue j hj]
  have hcheck : ¬ checkSyndrome (calcSyndrome w stale) = false := by
    rw [checkSyndrome_eq_false]
    intro hcode
    have hzero := hvalue 0 (by decide)
    rw [hcode 0 (by decide), pow_one] at hzero
    exact mul_ne_zero hgf (power_ne_zero _) hzero.symm
  have hlocator := locator_single hgf (power_ne_zero (11 - i.val)) hS
  have hevaluator := evaluator_single hS hlocator
  have herr := errorValue_line hlocator hevaluator
  have hplace : Fin.ofNat 12 (12 - (11 - i.val) - 1) = i := by
    refine Fin.ext ?_
    rw [Fin.val_ofNat]
    omega
  have hfixed : update w i (w i ^^^ e) = c := by
    rw [← hw, update_self, update_idem, BitVec.xor_assoc, BitVec.xor_self,
      BitVec.xor_zero, update_eq_self]
  have hclean : checkSyndrome (calcSyndrome c stale') = false :=
    (checkSyndrome_eq_false c stale').mpr hc
  rw [correctErrors, if_neg hcheck]
  simp only [findRoots_line hlocator (by omega : 11 - i.val < 12), calculate_snd, herr, hplace,
    hfixed, hclean, ite_true, if_neg (by omega : ¬ 12 ≤ 11 - i.val)]

theorem correctErrors_sound {w : Word} {syndrome stale : Poly}
    (h : (correctErrors w syndrome stale).result = .errorsCorrected) :
    IsCodeword (correctErrors w syndrome stale).codeword ∧
      hammingDist w (correctErrors w syndrome stale).codeword ≤ 1 := by
  revert h
  rw [correctErrors]
  split
  · exact fun h => nomatch h
  · dsimp only
    split
    · next i hroots =>
      split
      · exact fun h => nomatch h
      · split
        · next hclean =>
          refine fun _ => ⟨(checkSyndrome_eq_false _ stale).mp hclean, ?_⟩
          -- only the symbol at the one place can differ
          refine (Finset.card_le_card ?_).trans
            (Finset.card_singleton (Fin.ofNat 12 (12 - i - 1))).le
          intro k hk
          rw [Finset.mem_singleton]
          by_contra hne
          have hdiff := (Finset.mem_filter.mp hk).2
          exact hdiff (update_of_ne hne _ _).symm
        · exact fun h => nomatch h
    · exact fun h => nomatch h

/-- Nothing is found exactly where there is no syndrome. -/
theorem correctErrors_noErrorsFound (w : Word) (syndrome stale : Poly) :
    (correctErrors w syndrome stale).result = .noErrorsFound ↔ checkSyndrome syndrome = false := by
  constructor
  · intro h
    by_contra hcheck
    revert h
    rw [correctErrors, if_neg hcheck]
    dsimp only
    split
    · split
      · exact fun h => nomatch h
      · split <;> exact fun h => nomatch h
    · exact fun h => nomatch h
  · intro h
    rw [correctErrors, if_pos h]

/-- The correction is exact: nothing is found in the words of the code alone, which stay as they
are, a word beside the code becomes its only neighbour there, and the rest is refused. -/
theorem correctErrors_exact (w : Word) (stale stale' : Poly) :
    ((correctErrors w (calcSyndrome w stale) stale').result = .noErrorsFound ↔ IsCodeword w) ∧
    (IsCodeword w → (correctErrors w (calcSyndrome w stale) stale').codeword = w) ∧
    ((correctErrors w (calcSyndrome w stale) stale').result = .errorsCorrected ↔
      ∃ c, IsCodeword c ∧ hammingDist w c = 1) ∧
    (∀ c, IsCodeword c → hammingDist w c = 1 →
      (correctErrors w (calcSyndrome w stale) stale').codeword = c) ∧
    ((correctErrors w (calcSyndrome w stale) stale').result = .errorsCantBeCorrected ↔
      ∀ c, IsCodeword c → 1 < hammingDist w c) := by
  have hnone : (correctErrors w (calcSyndrome w stale) stale').result = .noErrorsFound ↔
      IsCodeword w := by
    rw [correctErrors_noErrorsFound, checkSyndrome_eq_false]
  have hnear : ∀ c, IsCodeword c → hammingDist w c = 1 →
      correctErrors w (calcSyndrome w stale) stale' = ⟨.errorsCorrected, c, 1⟩ := by
    intro c hc hdist
    obtain ⟨i, e, he, hw⟩ := exists_error hdist
    have hsingle := correctErrors_single hc i he stale stale'
    rwa [← hw] at hsingle
  have hone : (correctErrors w (calcSyndrome w stale) stale').result = .errorsCorrected ↔
      ∃ c, IsCodeword c ∧ hammingDist w c = 1 := by
    constructor
    · intro h
      obtain ⟨hcode, hle⟩ := correctErrors_sound h
      refine ⟨_, hcode, le_antisymm hle (Nat.one_le_iff_ne_zero.mpr ?_)⟩
      intro hzero
      -- a word at no distance from the code has no syndrome to correct
      rw [← hammingDist_eq_zero.mp hzero, ← hnone, h] at hcode
      exact nomatch hcode
    · rintro ⟨c, hc, hdist⟩
      rw [hnear c hc hdist]
  refine ⟨hnone, ?_, hone, fun c hc hdist => by rw [hnear c hc hdist], ?_⟩
  · intro h
    rw [correctErrors, if_pos ((checkSyndrome_eq_false w stale).mpr h)]
  · constructor
    · intro h c hc
      by_contra hle
      rcases Nat.le_one_iff_eq_zero_or_eq_one.mp (not_lt.mp hle) with hzero | hdist
      · rw [← hammingDist_eq_zero.mp hzero, ← hnone, h] at hc
        exact nomatch hc
      · rw [hnear c hc hdist] at h
        exact nomatch h
    · intro h
      cases hresult : (correctErrors w (calcSyndrome w stale) stale').result with
      | noErrorsFound =>
        have hself := h w (hnone.mp hresult)
        rw [hammingDist_self] at hself
        omega
      | errorsCorrected =>
        obtain ⟨c, hc, hdist⟩ := hone.mp hresult
        have hfar := h c hc
        omega
      | errorsCantBeCorrected => rfl

end DsdNeo.Fec.Rs129
