import Mathlib.RingTheory.PowerSeries.Basic
import Mathlib.RingTheory.Polynomial.Basic

/-!
# Shortest recurrences of a sequence

A sequence is a power series, a recurrence a polynomial with constant term one and a length that
bounds its degree. It generates the sequence up to a place when their product has no coefficient
from the length to that place. What the product leaves at the next place is the discrepancy: two
recurrences, one of which fails where the other does not, have lengths that add up to at least that
place.
-/

namespace DsdNeo.Galois

open Polynomial

variable {K : Type*} [Field K]

/-- What a recurrence leaves of the sequence at one place. -/
noncomputable def discrepancy (σ : PowerSeries K) (c : K[X]) (k : ℕ) : K :=
  PowerSeries.coeff k ((c : PowerSeries K) * σ)

/-- The recurrence generates the sequence after its length, up to a place. -/
structure Generates (σ : PowerSeries K) (c : K[X]) (l n : ℕ) : Prop where
  const : c.coeff 0 = 1
  degree : c.natDegree ≤ l
  zero : ∀ k, l < k → k ≤ n → discrepancy σ c k = 0

variable {σ τ : PowerSeries K} {c b : K[X]} {l m n u : ℕ}

theorem discrepancy_eq_sum (hdeg : c.natDegree ≤ l) (hl : l ≤ n) :
    discrepancy σ c n = ∑ i ∈ Finset.range (l + 1), c.coeff i * PowerSeries.coeff (n - i) σ := by
  rw [discrepancy, PowerSeries.coeff_mul, Finset.Nat.sum_antidiagonal_eq_sum_range_succ_mk]
  have hsub : Finset.range (l + 1) ⊆ Finset.range n.succ := Finset.range_subset_range.mpr (by omega)
  refine (Finset.sum_subset hsub ?_).symm.trans ?_
  · intro i _ hi
    have hlt : c.natDegree < i := by
      have := Finset.mem_range.not.mp hi
      omega
    rw [coeff_coe, coeff_eq_zero_of_natDegree_lt hlt, zero_mul]
  · exact Finset.sum_congr rfl fun i _ => by rw [coeff_coe]

theorem discrepancy_congr (hdeg : c.natDegree ≤ l) (hl : l < n)
    (h : ∀ k, 0 < k → k ≤ n → PowerSeries.coeff k σ = PowerSeries.coeff k τ) :
    discrepancy σ c n = discrepancy τ c n := by
  rw [discrepancy_eq_sum hdeg hl.le, discrepancy_eq_sum hdeg hl.le]
  refine Finset.sum_congr rfl fun i hi => ?_
  have hi' := Finset.mem_range.mp hi
  rw [h (n - i) (by omega) (by omega)]

namespace Generates

theorem congr (h : Generates σ c l n)
    (hστ : ∀ k, 0 < k → k ≤ n → PowerSeries.coeff k σ = PowerSeries.coeff k τ) :
    Generates τ c l n where
  const := h.const
  degree := h.degree
  zero k hk hkn := by
    rw [← discrepancy_congr h.degree hk fun i hi hik => hστ i hi (hik.trans hkn)]
    exact h.zero k hk hkn

theorem mono (h : Generates σ c l n) (hn : m ≤ n) : Generates σ c l m where
  const := h.const
  degree := h.degree
  zero k hk hkm := h.zero k hk (hkm.trans hn)

theorem succ (h : Generates σ c l (u - 1)) (hd : discrepancy σ c u = 0) : Generates σ c l u where
  const := h.const
  degree := h.degree
  zero k hk hku := by
    obtain rfl | hlt := hku.eq_or_lt
    · exact hd
    · exact h.zero k hk (by omega)

/-- A recurrence that fails at a place and one that does not have lengths that reach it. -/
theorem le_add (hc : Generates σ c l (u - 1)) (hd : discrepancy σ c u ≠ 0)
    (hb : Generates σ b m u) : u ≤ l + m := by
  by_contra hlt
  -- The coefficient of the product of both with the sequence, taken apart in either order.
  have hfirst : PowerSeries.coeff u ((b : PowerSeries K) * ((c : PowerSeries K) * σ)) =
      discrepancy σ c u := by
    rw [PowerSeries.coeff_mul, Finset.sum_eq_single (0, u)]
    · rw [coeff_coe, hb.const, one_mul, discrepancy]
    · rintro ⟨i, j⟩ hij hne
      have hsum : i + j = u := Finset.HasAntidiagonal.mem_antidiagonal.mp hij
      have hpos : i ≠ 0 := by
        rintro rfl
        exact hne (by rw [Nat.zero_add] at hsum; rw [hsum])
      by_cases hi : i ≤ m
      · exact mul_eq_zero_of_right _ (hc.zero j (by omega) (by omega))
      · rw [coeff_coe, coeff_eq_zero_of_natDegree_lt (lt_of_le_of_lt hb.degree (by omega)),
          zero_mul]
    · exact fun h => absurd (Finset.HasAntidiagonal.mem_antidiagonal.mpr (Nat.zero_add u)) h
  have hsecond : PowerSeries.coeff u ((c : PowerSeries K) * ((b : PowerSeries K) * σ)) = 0 := by
    rw [PowerSeries.coeff_mul]
    refine Finset.sum_eq_zero ?_
    rintro ⟨i, j⟩ hij
    have hsum : i + j = u := Finset.HasAntidiagonal.mem_antidiagonal.mp hij
    by_cases hi : i ≤ l
    · exact mul_eq_zero_of_right _ (hb.zero j (by omega) (by omega))
    · rw [coeff_coe, coeff_eq_zero_of_natDegree_lt (lt_of_le_of_lt hc.degree (by omega)), zero_mul]
  rw [mul_left_comm, hsecond] at hfirst
  exact hd hfirst.symm

/-- The change that takes the discrepancy away, by a row that failed earlier. -/
theorem change {q l' : ℕ} {β : K} (hc : Generates σ c l (u - 1)) (hb : Generates σ b m (q - 1))
    (hq : q < u) (hβ : β ≠ 0) (hfail : m < q → discrepancy σ b q = β)
    (hl : l ≤ l') (hm : m + (u - q) ≤ l') :
    Generates σ (c - C (discrepancy σ c u / β) * X ^ (u - q) * b) l' u where
  const := by
    rw [coeff_sub, mul_assoc, coeff_C_mul, coeff_X_pow_mul', if_neg (by omega), mul_zero,
      sub_zero, hc.const]
  degree := by
    have hshift : (C (discrepancy σ c u / β) * X ^ (u - q) * b).natDegree ≤ l' := by
      rw [mul_assoc]
      refine (natDegree_C_mul_le _ _).trans (natDegree_mul_le.trans ?_)
      have hx : (X ^ (u - q) : K[X]).natDegree ≤ u - q := natDegree_X_pow_le _
      have hb' := hb.degree
      omega
    exact (natDegree_sub_le _ _).trans (max_le (hc.degree.trans hl) hshift)
  zero k hk hku := by
    have hsplit : discrepancy σ (c - C (discrepancy σ c u / β) * X ^ (u - q) * b) k =
        discrepancy σ c k - discrepancy σ c u / β * discrepancy σ b (k - (u - q)) := by
      simp only [discrepancy]
      rw [Polynomial.coe_sub, Polynomial.coe_mul, Polynomial.coe_mul, coe_C, coe_pow, coe_X,
        sub_mul, map_sub, mul_assoc, mul_assoc, PowerSeries.coeff_C_mul,
        PowerSeries.coeff_X_pow_mul', if_pos (by omega)]
    rw [hsplit]
    obtain rfl | hlt := hku.eq_or_lt
    · rw [show k - (k - q) = q by omega, hfail (by omega), div_mul_cancel₀ _ hβ, sub_self]
    · rw [hc.zero k (by omega) (by omega), hb.zero (k - (u - q)) (by omega) (by omega), mul_zero,
        sub_zero]

/-- A recurrence of length zero is the constant one. -/
theorem eq_one (h : Generates σ c 0 n) : c = 1 := by
  rw [eq_C_of_natDegree_le_zero h.degree, h.const, C_1]

end Generates

theorem discrepancy_one (σ : PowerSeries K) (k : ℕ) :
    discrepancy σ 1 k = PowerSeries.coeff k σ := by
  rw [discrepancy, Polynomial.coe_one, one_mul]

theorem generates_one (h : ∀ k, 0 < k → k ≤ n → PowerSeries.coeff k σ = 0) : Generates σ 1 0 n where
  const := coeff_one_zero
  degree := natDegree_one.le
  zero k hk hkn := (discrepancy_one σ k).trans (h k hk hkn)

/-- The rows of the algorithm before a row: each one generates up to the place where it was
measured, and the length of the last is what its failed rows force. -/
structure Rows (σ : PowerSeries K) (c : ℕ → K[X]) (l : ℕ → ℕ) (d : ℕ → K) (u : ℕ) : Prop where
  generates : ∀ q ≤ u, Generates σ (c q) (l q) (q - 1)
  measured : ∀ q, 0 < q → q < u → d q = discrepancy σ (c q) q
  short : ∀ q, 0 < q → q ≤ u → l q < q
  zeroth : l 0 = 0 ∧ d 0 = 1
  reach : ∀ q < u, d q ≠ 0 → q ≤ l q + l u
  attained : ∃ q < u, d q ≠ 0 ∧ q = l q + l u

namespace Rows

variable {c c' : ℕ → K[X]} {l l' : ℕ → ℕ} {d d' : ℕ → K} {q : ℕ}

/-- Two tables with the same rows up to one. -/
structure Agree (c c' : ℕ → K[X]) (l l' : ℕ → ℕ) (d d' : ℕ → K) (u : ℕ) : Prop where
  row : ∀ q ≤ u, c' q = c q
  length : ∀ q ≤ u, l' q = l q
  failed : ∀ q ≤ u, d' q = d q

theorem Agree.update (c : ℕ → K[X]) (l : ℕ → ℕ) (d : ℕ → K) (u : ℕ) (b : K[X]) (m : ℕ) :
    Agree c (Function.update c (u + 1) b) l (Function.update l (u + 1) m) d d u where
  row q hq := Function.update_of_ne (show q ≠ u + 1 by omega) b c
  length q hq := Function.update_of_ne (show q ≠ u + 1 by omega) m l
  failed _ _ := rfl

/-- Only the discrepancies before the last row count. -/
theorem congr_failed (h : Rows σ c l d u) (hu : 0 < u) (hd : ∀ q < u, d' q = d q) :
    Rows σ c l d' u where
  generates := h.generates
  measured q hq hqu := (hd q hqu).trans (h.measured q hq hqu)
  short := h.short
  zeroth := ⟨h.zeroth.1, (hd 0 hu).trans h.zeroth.2⟩
  reach q hq hne := h.reach q hq (hd q hq ▸ hne)
  attained := by
    obtain ⟨q, hq, hne, heq⟩ := h.attained
    exact ⟨q, hq, hd q hq ▸ hne, heq⟩

theorem first (hc : ∀ q ≤ 1, c q = 1) (hl : ∀ q ≤ 1, l q = 0) (hd : d 0 = 1) : Rows σ c l d 1 where
  generates q hq := by
    refine ⟨?_, ?_, fun k _ hk => ?_⟩
    · rw [hc q hq, coeff_one_zero]
    · rw [hc q hq, natDegree_one]
      exact Nat.zero_le _
    · omega
  measured q _ _ := by omega
  short q _ hq := by
    rw [hl q hq]
    omega
  zeroth := ⟨hl 0 (by omega), hd⟩
  reach q _ _ := by omega
  attained := ⟨0, by omega, by rw [hd]; exact one_ne_zero, by
    rw [hl 0 (by omega), hl 1 (by omega)]⟩

theorem keep (h : Rows σ c l d u) (hu : 0 < u) (hd : d u = discrepancy σ (c u) u)
    (hagree : Agree c c' l l' d d' u) (hz : d u = 0) (hrow : c' (u + 1) = c u)
    (hlen : l' (u + 1) = l u) : Rows σ c' l' d' (u + 1) where
  generates q hq := by
    obtain rfl | hlt := hq.eq_or_lt
    · rw [hrow, hlen]
      exact (h.generates u le_rfl).succ (hd ▸ hz)
    · rw [hagree.row q (by omega), hagree.length q (by omega)]
      exact h.generates q (by omega)
  measured q hq hqu := by
    rw [hagree.row q (by omega), hagree.failed q (by omega)]
    obtain rfl | hlt := (Nat.lt_succ_iff.mp hqu).eq_or_lt
    · exact hd
    · exact h.measured q hq hlt
  short q hq hqu := by
    obtain rfl | hlt := hqu.eq_or_lt
    · rw [hlen]
      exact (h.short u hu le_rfl).trans (Nat.lt_succ_self u)
    · rw [hagree.length q (by omega)]
      exact h.short q hq (by omega)
  zeroth := by
    rw [hagree.length 0 (Nat.zero_le u), hagree.failed 0 (Nat.zero_le u)]
    exact h.zeroth
  reach q hq hne := by
    rw [hagree.failed q (by omega)] at hne
    rw [hlen, hagree.length q (by omega)]
    obtain rfl | hlt := (Nat.lt_succ_iff.mp hq).eq_or_lt
    · exact absurd hz hne
    · exact h.reach q hlt hne
  attained := by
    obtain ⟨q, hq, hne, heq⟩ := h.attained
    refine ⟨q, by omega, ?_, ?_⟩
    · rwa [hagree.failed q hq.le]
    · rwa [hagree.length q hq.le, hlen]

theorem length_eq (h : Rows σ c l d u) (hq : q < u) (hne : d q ≠ 0)
    (hbest : ∀ p < u, d p ≠ 0 → p + l q ≤ q + l p) : q = l q + l u := by
  obtain ⟨p, hp, hpne, hpeq⟩ := h.attained
  have hreach := h.reach q hq hne
  have := hbest p hp hpne
  omega

theorem change (h : Rows σ c l d u) (hu : 0 < u) (hd : d u = discrepancy σ (c u) u)
    (hagree : Agree c c' l l' d d' u) (hz : d u ≠ 0) (hq : q < u) (hne : d q ≠ 0)
    (hbest : ∀ p < u, d p ≠ 0 → p + l q ≤ q + l p)
    (hrow : c' (u + 1) = c u - C (d u / d q) * X ^ (u - q) * c q)
    (hlen : l' (u + 1) = max (l u) (l q + u - q)) : Rows σ c' l' d' (u + 1) := by
  have heq : q = l q + l u := h.length_eq hq hne hbest
  have hshort := h.short u hu le_rfl
  have hlen' : l' (u + 1) = max (l u) (u - l u) := by omega
  refine ⟨?_, ?_, ?_, ?_, ?_, ?_⟩
  · intro p hp
    obtain rfl | hlt := hp.eq_or_lt
    · rw [hrow, hd]
      refine (h.generates u le_rfl).change (h.generates q hq.le) hq hne ?_ (by omega) (by omega)
      intro hlq
      exact (h.measured q (by omega) hq).symm
    · rw [hagree.row p (by omega), hagree.length p (by omega)]
      exact h.generates p (by omega)
  · intro p hp hpu
    rw [hagree.row p (by omega), hagree.failed p (by omega)]
    obtain rfl | hlt := (Nat.lt_succ_iff.mp hpu).eq_or_lt
    · exact hd
    · exact h.measured p hp hlt
  · intro p hp hpu
    obtain rfl | hlt := hpu.eq_or_lt
    · omega
    · rw [hagree.length p (by omega)]
      exact h.short p hp (by omega)
  · rw [hagree.length 0 (Nat.zero_le u), hagree.failed 0 (Nat.zero_le u)]
    exact h.zeroth
  · intro p hp hpne
    rw [hagree.length p (by omega), hlen']
    obtain rfl | hlt := (Nat.lt_succ_iff.mp hp).eq_or_lt
    · omega
    · rw [hagree.failed p (by omega)] at hpne
      have := h.reach p hlt hpne
      omega
  · by_cases hgrow : l u < u - l u
    · refine ⟨u, by omega, ?_, ?_⟩
      · rwa [hagree.failed u le_rfl]
      · rw [hagree.length u le_rfl, hlen']
        omega
    · refine ⟨q, by omega, ?_, ?_⟩
      · rwa [hagree.failed q hq.le]
      · rw [hagree.length q hq.le, hlen']
        omega

/-- No recurrence that generates as far as the last row is shorter. -/
theorem least (h : Rows σ c l d u) (hb : Generates σ b m (u - 1)) : l u ≤ m := by
  obtain ⟨q, hq, hne, heq⟩ := h.attained
  obtain rfl | hpos := Nat.eq_zero_or_pos q
  · omega
  · have := (h.generates q hq.le).le_add (h.measured q hpos hq ▸ hne) (hb.mono (by omega))
    omega

end Rows

end DsdNeo.Galois
