import DsdNeo.Core.Galois.Massey
import Mathlib.LinearAlgebra.FiniteDimensional.Lemmas
import Mathlib.LinearAlgebra.Lagrange

/-!
# Sequences of power sums

The coefficients are sums of the powers of distinct nonzero points, each with a weight. The
polynomial whose roots are the inverse points generates the sequence; a short enough recurrence of
it vanishes there, and one of the same length is that polynomial. In the other direction, the
sequence that a recurrence with enough distinct roots generates is one of power sums.
-/

namespace DsdNeo.Galois

open Polynomial Finset

variable {K ι : Type*} [Field K]

/-- The sums of the powers of the points, each with its weight. -/
noncomputable def powerSums (s : Finset ι) (x y : ι → K) : PowerSeries K :=
  PowerSeries.mk fun k => ∑ i ∈ s, y i * x i ^ k

/-- The polynomial with the inverse points as roots. -/
noncomputable def locator (s : Finset ι) (x : ι → K) : K[X] := ∏ i ∈ s, (1 - C (x i) * X)

/-- The product of the locator with the sequence after its first coefficient. -/
noncomputable def evaluator [DecidableEq ι] (s : Finset ι) (x y : ι → K) : K[X] :=
  ∑ i ∈ s, C (y i * x i) * X * locator (s.erase i) x

variable {s : Finset ι} {x y : ι → K} {c : K[X]} {l n : ℕ}

@[simp] theorem coeff_powerSums (k : ℕ) :
    PowerSeries.coeff k (powerSums s x y) = ∑ i ∈ s, y i * x i ^ k := PowerSeries.coeff_mk _ _

theorem eq_zero_of_sums (hx : Set.InjOn x s) (hne : ∀ i ∈ s, x i ≠ 0) {a : ι → K} (k₀ : ℕ)
    (h : ∀ k, k₀ ≤ k → k < k₀ + s.card → ∑ i ∈ s, a i * x i ^ k = 0) : ∀ i ∈ s, a i = 0 := by
  classical
  intro i hi
  -- A polynomial that vanishes at every point but this one.
  let p : K[X] := ∏ j ∈ s.erase i, (X - C (x j))
  have hdeg : p.natDegree < s.card := by
    rw [natDegree_prod_of_monic _ _ fun j _ => monic_X_sub_C (x j)]
    simp only [natDegree_X_sub_C, sum_const, Nat.nsmul_eq_mul, mul_one]
    exact card_erase_lt_of_mem hi
  have hother : ∀ j ∈ s, j ≠ i → p.eval (x j) = 0 := by
    intro j hj hji
    rw [eval_prod]
    exact prod_eq_zero (mem_erase.mpr ⟨hji, hj⟩) (by
      rw [eval_sub, eval_X, eval_C, sub_self])
  have hhere : p.eval (x i) ≠ 0 := by
    rw [eval_prod]
    refine prod_ne_zero_iff.mpr fun j hj => ?_
    rw [eval_sub, eval_X, eval_C]
    refine sub_ne_zero.mpr fun heq => ?_
    exact (mem_erase.mp hj).1 (hx (mem_erase.mp hj).2 hi heq.symm)
  have hsum : ∑ j ∈ s, a j * x j ^ k₀ * p.eval (x j) = 0 := by
    calc
      ∑ j ∈ s, a j * x j ^ k₀ * p.eval (x j) =
          ∑ j ∈ s, ∑ m ∈ Finset.range s.card, p.coeff m * (a j * x j ^ (k₀ + m)) := by
        refine sum_congr rfl fun j _ => ?_
        rw [eval_eq_sum_range' hdeg, mul_sum]
        refine sum_congr rfl fun m _ => ?_
        rw [pow_add]
        ring
      _ = ∑ m ∈ Finset.range s.card, p.coeff m * ∑ j ∈ s, a j * x j ^ (k₀ + m) := by
        rw [sum_comm]
        exact sum_congr rfl fun m _ => (mul_sum _ _ _).symm
      _ = 0 := sum_eq_zero fun m hm => by
        have hm' := mem_range.mp hm
        rw [h (k₀ + m) (by omega) (by omega), mul_zero]
  rw [sum_eq_single i (fun j hj hji => by rw [hother j hj hji, mul_zero])
    fun h => absurd hi h] at hsum
  have hpow : x i ^ k₀ ≠ 0 := pow_ne_zero _ (hne i hi)
  exact (mul_eq_zero.mp ((mul_eq_zero.mp hsum).resolve_right hhere)).resolve_right hpow

/-- As many places in a row can take any values. -/
theorem exists_sums (hx : Set.InjOn x s) (hne : ∀ i ∈ s, x i ≠ 0) (k₀ : ℕ) (v : ℕ → K) :
    ∃ y : ι → K, ∀ k, k₀ ≤ k → k < k₀ + s.card → ∑ i ∈ s, y i * x i ^ k = v k := by
  classical
  let T : (s → K) →ₗ[K] (Fin s.card → K) :=
    { toFun := fun y k => ∑ i : s, y i * x i ^ (k₀ + k)
      map_add' := fun y z => by
        funext k
        simp only [Pi.add_apply, add_mul, sum_add_distrib]
      map_smul' := fun r y => by
        funext k
        simp only [Pi.smul_apply, smul_eq_mul, mul_assoc, mul_sum, RingHom.id_apply] }
  have hrank : Module.finrank K (s → K) = Module.finrank K (Fin s.card → K) := by
    rw [Module.finrank_fintype_fun_eq_card, Module.finrank_fintype_fun_eq_card, Fintype.card_coe,
      Fintype.card_fin]
  have hinj : Function.Injective T := by
    rw [injective_iff_map_eq_zero]
    intro z hz
    have hzero := eq_zero_of_sums hx hne (a := fun i => if h : i ∈ s then z ⟨i, h⟩ else 0) k₀
      fun k hk hkc => by
        have hk' := congrFun hz ⟨k - k₀, by omega⟩
        have hsum : ∑ i : s, z i * x i ^ (k₀ + (k - k₀)) = 0 := hk'
        rw [Nat.add_sub_of_le hk] at hsum
        rw [← sum_coe_sort s, ← hsum]
        exact sum_congr rfl fun i _ => by rw [dif_pos i.2]
    funext i
    have := hzero i i.2
    rwa [dif_pos i.2] at this
  obtain ⟨z, hz⟩ := (LinearMap.injective_iff_surjective_of_finrank_eq_finrank hrank).mp hinj
    fun k => v (k₀ + k)
  let y : ι → K := fun i => if h : i ∈ s then z ⟨i, h⟩ else 0
  have hy : ∀ i : s, y i = z i := fun i => dif_pos i.2
  refine ⟨y, fun k hk hkc => ?_⟩
  have hk' : ∑ i : s, z i * x i ^ (k₀ + (k - k₀)) = v (k₀ + (k - k₀)) :=
    congrFun hz ⟨k - k₀, by omega⟩
  rw [Nat.add_sub_of_le hk] at hk'
  rw [← hk', ← sum_coe_sort s]
  exact sum_congr rfl fun i _ => by rw [hy]

/-- What a recurrence leaves of power sums is made of its values at the inverse points. -/
theorem discrepancy_powerSums (hne : ∀ i ∈ s, x i ≠ 0) (hdeg : c.natDegree ≤ l) (hl : l ≤ n) :
    discrepancy (powerSums s x y) c n = ∑ i ∈ s, y i * c.eval (x i)⁻¹ * x i ^ n := by
  rw [discrepancy_eq_sum hdeg hl]
  calc
    ∑ j ∈ Finset.range (l + 1), c.coeff j * PowerSeries.coeff (n - j) (powerSums s x y) =
        ∑ j ∈ Finset.range (l + 1), ∑ i ∈ s, y i * (c.coeff j * (x i)⁻¹ ^ j) * x i ^ n := by
      refine sum_congr rfl fun j hj => ?_
      rw [coeff_powerSums, mul_sum]
      refine sum_congr rfl fun i hi => ?_
      have hj' := mem_range.mp hj
      have hpow : (x i)⁻¹ ^ j * x i ^ n = x i ^ (n - j) := by
        rw [← Nat.sub_add_cancel (show j ≤ n by omega), pow_add, mul_left_comm, ← mul_pow,
          inv_mul_cancel₀ (hne i hi), one_pow, mul_one, Nat.add_sub_cancel]
      rw [← hpow]
      ring
    _ = ∑ i ∈ s, y i * c.eval (x i)⁻¹ * x i ^ n := by
      rw [sum_comm]
      refine sum_congr rfl fun i _ => ?_
      rw [eval_eq_sum_range' (Nat.lt_succ_of_le hdeg), mul_sum, sum_mul]

/-- A recurrence with room for the points vanishes at the inverse of each that counts. -/
theorem Generates.root (h : Generates (powerSums s x y) c l n) (hx : Set.InjOn x s)
    (hne : ∀ i ∈ s, x i ≠ 0) (hn : l + s.card ≤ n) : ∀ i ∈ s, y i ≠ 0 → c.eval (x i)⁻¹ = 0 := by
  intro i hi hy
  have hzero := eq_zero_of_sums hx hne (a := fun i => y i * c.eval (x i)⁻¹) (l + 1)
    (fun k hk hkc => by
      rw [← discrepancy_powerSums hne h.degree (by omega)]
      exact h.zero k (by omega) (by omega)) i hi
  exact (mul_eq_zero.mp hzero).resolve_left hy

@[simp] theorem coeff_zero_locator : (locator s x).coeff 0 = 1 := by
  rw [coeff_zero_eq_eval_zero, locator, eval_prod]
  refine prod_eq_one fun i _ => ?_
  rw [eval_sub, eval_one, eval_mul, eval_X, mul_zero, sub_zero]

theorem natDegree_locator_le : (locator s x).natDegree ≤ s.card := by
  refine (natDegree_prod_le _ _).trans ?_
  refine (sum_le_card_nsmul _ _ 1 fun i _ => ?_).trans (by rw [Nat.nsmul_eq_mul, mul_one])
  refine (natDegree_sub_le _ _).trans (max_le (by rw [natDegree_one]; omega) ?_)
  exact (natDegree_C_mul_le _ _).trans natDegree_X_le

theorem eval_locator (a : K) : (locator s x).eval a = ∏ i ∈ s, (1 - x i * a) := by
  rw [locator, eval_prod]
  refine prod_congr rfl fun i _ => ?_
  rw [eval_sub, eval_one, eval_mul, eval_C, eval_X]

theorem eval_locator_inv {i : ι} (hi : i ∈ s) (hne : x i ≠ 0) : (locator s x).eval (x i)⁻¹ = 0 := by
  rw [eval_locator]
  exact prod_eq_zero hi (by rw [mul_inv_cancel₀ hne, sub_self])

theorem generates_locator (hne : ∀ i ∈ s, x i ≠ 0) (n : ℕ) :
    Generates (powerSums s x y) (locator s x) s.card n where
  const := coeff_zero_locator
  degree := natDegree_locator_le
  zero k hk _ := by
    rw [discrepancy_powerSums hne natDegree_locator_le hk.le]
    refine sum_eq_zero fun i hi => ?_
    rw [eval_locator_inv hi (hne i hi), mul_zero, zero_mul]

theorem eq_locator (hx : Set.InjOn x s) (hne : ∀ i ∈ s, x i ≠ 0) (hconst : c.coeff 0 = 1)
    (hdeg : c.natDegree ≤ s.card) (hroot : ∀ i ∈ s, c.eval (x i)⁻¹ = 0) : c = locator s x := by
  classical
  let roots : Finset K := insert 0 (s.image fun i => (x i)⁻¹)
  have hinj : Set.InjOn (fun i => (x i)⁻¹) s := fun i hi j hj hij => hx hi hj (inv_injective hij)
  have hzero : (0 : K) ∉ s.image fun i => (x i)⁻¹ := by
    intro hmem
    obtain ⟨i, hi, hi0⟩ := mem_image.mp hmem
    exact hne i hi (inv_eq_zero.mp hi0)
  have hcard : roots.card = s.card + 1 := by
    rw [card_insert_of_notMem hzero, card_image_of_injOn hinj]
  refine eq_of_degree_sub_lt_of_eval_finset_eq roots ?_ fun a ha => ?_
  · refine lt_of_le_of_lt degree_le_natDegree ?_
    rw [hcard]
    have := (natDegree_sub_le c (locator s x)).trans (max_le hdeg natDegree_locator_le)
    exact_mod_cast Nat.lt_succ_of_le this
  · rcases mem_insert.mp ha with rfl | hmem
    · rw [← coeff_zero_eq_eval_zero, ← coeff_zero_eq_eval_zero, hconst, coeff_zero_locator]
    · obtain ⟨i, hi, rfl⟩ := mem_image.mp hmem
      rw [hroot i hi, eval_locator_inv hi (hne i hi)]

/-- The degree of the locator is the number of its points. -/
theorem card_le_of_roots (hx : Set.InjOn x s) (hconst : c.coeff 0 = 1)
    (hroot : ∀ i ∈ s, c.eval (x i)⁻¹ = 0) : s.card ≤ c.natDegree := by
  classical
  have hc : c ≠ 0 := by
    rintro rfl
    exact zero_ne_one hconst
  have hinj : Set.InjOn (fun i => (x i)⁻¹) s := fun i hi j hj hij => hx hi hj (inv_injective hij)
  rw [← card_image_of_injOn hinj]
  refine card_le_degree_of_subset_roots fun a ha => ?_
  obtain ⟨i, hi, rfl⟩ := mem_image.mp (mem_val.mp ha)
  exact (mem_roots hc).mpr (hroot i hi)

theorem Generates.exists_powerSums {σ : PowerSeries K} (h : Generates σ c s.card n)
    (hx : Set.InjOn x s) (hne : ∀ i ∈ s, x i ≠ 0) (hroot : ∀ i ∈ s, c.eval (x i)⁻¹ = 0) :
    ∃ y : ι → K, ∀ k, 0 < k → k ≤ n →
      PowerSeries.coeff k σ = PowerSeries.coeff k (powerSums s x y) := by
  obtain ⟨y, hy⟩ := exists_sums hx hne 1 fun k => PowerSeries.coeff k σ
  refine ⟨y, fun k => ?_⟩
  induction k using Nat.strong_induction_on with
  | _ k ih =>
    intro hk hkn
    by_cases hshort : k ≤ s.card
    · rw [coeff_powerSums, hy k hk (by omega)]
    have hthis := h.zero k (by omega) hkn
    have hthat : discrepancy (powerSums s x y) c k = 0 := by
      rw [discrepancy_powerSums hne h.degree (by omega)]
      exact sum_eq_zero fun i hi => by rw [hroot i hi, mul_zero, zero_mul]
    rw [discrepancy_eq_sum h.degree (by omega), sum_range_succ', Nat.sub_zero, h.const,
      one_mul] at hthis hthat
    have htail : ∑ j ∈ Finset.range s.card, c.coeff (j + 1) * PowerSeries.coeff (k - (j + 1)) σ =
        ∑ j ∈ Finset.range s.card,
          c.coeff (j + 1) * PowerSeries.coeff (k - (j + 1)) (powerSums s x y) := by
      refine sum_congr rfl fun j hj => ?_
      have hj' := mem_range.mp hj
      rw [ih (k - (j + 1)) (by omega) (by omega) (by omega)]
    rw [htail] at hthis
    exact add_left_cancel (hthis.trans hthat.symm)

/-- The value of the evaluator at an inverse point is its weight times the other factors. -/
theorem eval_evaluator [DecidableEq ι] {i : ι} (hi : i ∈ s) (hne : x i ≠ 0) :
    (evaluator s x y).eval (x i)⁻¹ = y i * ∏ j ∈ s.erase i, (1 - x j * (x i)⁻¹) := by
  rw [evaluator, eval_finsetSum, sum_eq_single i]
  · rw [eval_mul, eval_mul, eval_C, eval_X, mul_assoc (y i), mul_inv_cancel₀ hne, mul_one,
      eval_locator]
  · intro j hj hji
    rw [eval_mul, eval_locator_inv (mem_erase.mpr ⟨hji.symm, hi⟩) hne, mul_zero]
  · exact fun h => absurd hi h

theorem natDegree_evaluator_le [DecidableEq ι] : (evaluator s x y).natDegree ≤ s.card := by
  refine natDegree_sum_le_of_forall_le _ _ fun i hi => ?_
  refine natDegree_mul_le.trans ?_
  have hfirst : (C (y i * x i) * X).natDegree ≤ 1 :=
    (natDegree_C_mul_le _ _).trans natDegree_X_le
  have hlocator : (locator (s.erase i) x).natDegree ≤ (s.erase i).card := natDegree_locator_le
  have hcard := card_erase_add_one hi
  omega

theorem coeff_evaluator [DecidableEq ι] (k : ℕ) :
    (evaluator s x y).coeff k =
      ∑ j ∈ Finset.range k, (locator s x).coeff j * PowerSeries.coeff (k - j)
        (powerSums s x y) := by
  -- The powers of one point after the first, and what its factor leaves of them.
  let tail : K → PowerSeries K := fun a => PowerSeries.mk fun k => if k = 0 then 0 else a ^ k
  have htail : ∀ a : K, ((1 - C a * X : K[X]) : PowerSeries K) * tail a =
      ((C a * X : K[X]) : PowerSeries K) := by
    intro a
    ext m
    rw [Polynomial.coe_sub, Polynomial.coe_mul, coe_C, coe_X, Polynomial.coe_one, sub_mul, one_mul,
      map_sub, mul_assoc, PowerSeries.coeff_C_mul, PowerSeries.coeff_C_mul]
    obtain _ | m := m
    · rw [PowerSeries.coeff_zero_X_mul, PowerSeries.coeff_zero_X, PowerSeries.coeff_mk, if_pos rfl,
        mul_zero, sub_zero]
    · rw [PowerSeries.coeff_succ_X_mul, PowerSeries.coeff_mk, PowerSeries.coeff_mk,
        if_neg (Nat.succ_ne_zero m), PowerSeries.coeff_X]
      obtain _ | m := m
      · rw [if_pos rfl, if_pos rfl, mul_zero, sub_zero, pow_succ, pow_zero, one_mul, mul_one]
      · rw [if_neg (Nat.succ_ne_zero m), if_neg (by omega), mul_zero, pow_succ' a (m + 1), sub_self]
  have hproduct : ((locator s x : K[X]) : PowerSeries K) * ∑ i ∈ s,
    PowerSeries.C (y i) * tail (x i) =
      (evaluator s x y : K[X]) := by
    rw [evaluator, mul_sum]
    refine Eq.trans ?_ (map_sum coeToPowerSeries.ringHom _ s).symm
    refine sum_congr rfl fun i hi => ?_
    rw [coeToPowerSeries.ringHom_apply, locator, ← mul_prod_erase s _ hi,
      Polynomial.coe_mul, Polynomial.coe_mul (C (y i * x i) * X), ← locator]
    rw [show (C (y i * x i) * X : K[X]) = C (y i) * (C (x i) * X) by rw [C_mul, mul_assoc],
      Polynomial.coe_mul, coe_C, ← htail (x i)]
    ring
  rw [← coeff_coe, ← hproduct, PowerSeries.coeff_mul,
    Finset.Nat.sum_antidiagonal_eq_sum_range_succ_mk, sum_range_succ, Nat.sub_self]
  have hlast : PowerSeries.coeff 0 (∑ i ∈ s, PowerSeries.C (y i) * tail (x i)) = 0 := by
    rw [map_sum]
    refine sum_eq_zero fun i _ => ?_
    rw [PowerSeries.coeff_C_mul, PowerSeries.coeff_mk, if_pos rfl, mul_zero]
  rw [hlast, mul_zero, add_zero]
  refine sum_congr rfl fun j hj => ?_
  have hj' := mem_range.mp hj
  rw [coeff_coe, map_sum, coeff_powerSums]
  congr 1
  refine sum_congr rfl fun i _ => ?_
  rw [PowerSeries.coeff_C_mul, PowerSeries.coeff_mk, if_neg (by omega)]

end DsdNeo.Galois
