import Mathlib.Algebra.CharP.Two
import Mathlib.Algebra.Field.Basic
import Mathlib.Data.List.Iterate

/-!
# Fields of words stepped by a shift register

An additive step on words of `n` bits that passes, from one, every nonzero word before it comes
back. The sum is exclusive or and the product of two words adds the numbers of steps it takes to
reach them.
-/

namespace DsdNeo.Galois

open List Function

/-- An additive step that does not come back to one before it passed as many words as there
are nonzero ones. -/
structure Register (n : ℕ) where
  step : BitVec n → BitVec n
  width_pos : 0 < n
  step_xor : ∀ a b, step (a ^^^ b) = step a ^^^ step b
  step_ne_zero : ∀ a, a ≠ 0 → step a ≠ 0
  cycle : step^[2 ^ n - 1] 1 = 1
  absent : 1 ∉ List.iterate step (step 1) (2 ^ n - 2)

namespace Register

variable {n : ℕ} (R : Register n)

/-- The number of nonzero words. -/
def period (_R : Register n) : ℕ := 2 ^ n - 1

theorem period_pos : 0 < R.period := by
  have h := Nat.one_lt_two_pow (n := n) (by have := R.width_pos; omega)
  rw [period]
  omega

include R in
theorem one_ne_zero : (1 : BitVec n) ≠ 0 := by
  intro h
  have hval := congrArg BitVec.toNat h
  have hpow := Nat.one_lt_two_pow (n := n) (by have := R.width_pos; omega)
  simp [Nat.mod_eq_of_lt hpow] at hval

theorem step_injective : Function.Injective R.step := by
  intro a b h
  by_contra hne
  refine R.step_ne_zero (a ^^^ b) ?_ (by rw [R.step_xor, h, BitVec.xor_self]; rfl)
  intro hxor
  exact hne (BitVec.xor_eq_zero_iff.mp hxor)

theorem step_zero : R.step 0 = 0 := by
  have h := R.step_xor 0 0
  rwa [BitVec.xor_self, BitVec.xor_self] at h

/-- The word after `k` steps from one. -/
def antilog (k : ℕ) : BitVec n := R.step^[k] 1

/-- The number of steps to a nonzero word. -/
def log (a : BitVec n) : ℕ := (List.iterate R.step 1 R.period).idxOf a

theorem antilog_succ (k : ℕ) : R.antilog (k + 1) = R.step (R.antilog k) :=
  iterate_succ_apply' R.step k 1

theorem antilog_add (k m : ℕ) : R.antilog (k + m) = R.step^[k] (R.antilog m) :=
  iterate_add_apply R.step k m 1

theorem antilog_period (k : ℕ) : R.antilog (k + R.period) = R.antilog k := by
  rw [antilog_add, antilog, period, R.cycle, antilog]

theorem antilog_mod (k : ℕ) : R.antilog (k % R.period) = R.antilog k := by
  have h : ∀ m r, R.antilog (r + R.period * m) = R.antilog r := by
    intro m r
    induction m with
    | zero => rfl
    | succ m ih => rw [Nat.mul_succ, ← Nat.add_assoc, antilog_period, ih]
  calc
    R.antilog (k % R.period) = R.antilog (k % R.period + R.period * (k / R.period)) := (h _ _).symm
    _ = R.antilog k := by rw [Nat.mod_add_div]

theorem antilog_ne_zero (k : ℕ) : R.antilog k ≠ 0 := by
  induction k with
  | zero => exact R.one_ne_zero
  | succ k ih =>
    rw [antilog_succ]
    exact R.step_ne_zero _ ih

/-- The states of one period are distinct. -/
theorem nodup : (List.iterate R.step 1 R.period).Nodup := by
  rw [← range_map_iterate]
  have hlater : ∀ i j, i < j → j < R.period → R.step^[i] 1 ≠ R.step^[j] 1 := by
    intro i j hij hj h
    obtain ⟨k, rfl⟩ : ∃ k, j = i + (k + 1) := ⟨j - i - 1, by omega⟩
    rw [iterate_add_apply] at h
    refine R.absent (mem_iterate.mpr ⟨k, ?_, ?_⟩)
    · rw [period] at hj
      omega
    · exact (R.step_injective.iterate i h).trans (iterate_succ_apply _ _ _)
  refine nodup_range.map_on fun i hi j hj h => ?_
  rcases Nat.lt_trichotomy i j with hlt | heq | hgt
  · exact absurd h (hlater i j hlt (mem_range.mp hj))
  · exact heq
  · exact absurd h.symm (hlater j i hgt (mem_range.mp hi))

variable {a : BitVec n}

/-- They are all the nonzero words. -/
theorem covers (ha : a ≠ 0) : a ∈ List.iterate R.step 1 R.period := by
  have hin : ∀ b, b ∈ (List.iterate R.step 1 R.period).map BitVec.toNat →
      b ∈ List.range' 1 R.period := by
    intro b hb
    obtain ⟨w, hw, rfl⟩ := mem_map.mp hb
    obtain ⟨k, -, rfl⟩ := mem_iterate.mp hw
    have hne : (R.step^[k] 1).toNat ≠ 0 := fun h =>
      R.antilog_ne_zero k (BitVec.eq_of_toNat_eq (h.trans BitVec.toNat_zero.symm))
    have hlt := (R.step^[k] 1).isLt
    rw [mem_range'_1, period]
    omega
  have hnodup : ((List.iterate R.step 1 R.period).map BitVec.toNat).Nodup :=
    R.nodup.map fun _ _ h => BitVec.eq_of_toNat_eq h
  have hperm := (subperm_of_subset hnodup hin).perm_of_length_le (by simp)
  have hne : a.toNat ≠ 0 := fun h => ha (BitVec.eq_of_toNat_eq (h.trans BitVec.toNat_zero.symm))
  have hmem : a.toNat ∈ (List.iterate R.step 1 R.period).map BitVec.toNat := by
    have hlt := a.isLt
    rw [hperm.mem_iff, mem_range'_1, period]
    omega
  obtain ⟨b, hb, heq⟩ := mem_map.mp hmem
  rwa [← BitVec.eq_of_toNat_eq heq]

theorem log_lt (h : a ≠ 0) : R.log a < R.period := by
  have hlt := idxOf_lt_length_of_mem (R.covers h)
  rwa [length_iterate] at hlt

/-- A state is the power of its logarithm. -/
theorem antilog_log (h : a ≠ 0) : R.antilog (R.log a) = a := by
  have hlt := idxOf_lt_length_of_mem (R.covers h)
  have hget := getElem_idxOf hlt
  rwa [getElem_iterate] at hget

/-- The logarithm of a power is its exponent, modulo the period. -/
theorem log_antilog (k : ℕ) : R.log (R.antilog k) = k % R.period := by
  have hlt : k % R.period < (List.iterate R.step 1 R.period).length := by
    rw [length_iterate]
    exact Nat.mod_lt _ R.period_pos
  have hget : (List.iterate R.step 1 R.period)[k % R.period] = R.antilog (k % R.period) :=
    getElem_iterate _ _ _ _ hlt
  rw [← antilog_mod, ← hget, log, R.nodup.idxOf_getElem]

theorem iterate_step_xor (k : ℕ) (a b : BitVec n) :
    R.step^[k] (a ^^^ b) = R.step^[k] a ^^^ R.step^[k] b := by
  induction k generalizing a b with
  | zero => rfl
  | succ k ih =>
    rw [iterate_succ_apply, iterate_succ_apply, iterate_succ_apply, R.step_xor, ih]

theorem iterate_step_zero (k : ℕ) : R.step^[k] 0 = 0 := iterate_fixed R.step_zero k

/-- A word as an element of the field. -/
@[ext]
structure Element (R : Register n) where
  bits : BitVec n
deriving DecidableEq, Repr

namespace Element

variable {R}

instance : Zero (Element R) := ⟨⟨0⟩⟩

instance : One (Element R) := ⟨⟨1⟩⟩

instance : Add (Element R) := ⟨fun a b => ⟨a.bits ^^^ b.bits⟩⟩

instance : Neg (Element R) := ⟨id⟩

instance : Sub (Element R) := ⟨fun a b => ⟨a.bits ^^^ b.bits⟩⟩

instance : Mul (Element R) :=
  ⟨fun a b => if a = 0 ∨ b = 0 then 0 else ⟨R.antilog (R.log a.bits + R.log b.bits)⟩⟩

instance : Inv (Element R) :=
  ⟨fun a => if a = 0 then 0 else ⟨R.antilog (R.period - R.log a.bits)⟩⟩

variable (R) in
/-- The word after `k` steps, as an element. -/
def power (k : ℕ) : Element R := ⟨R.antilog k⟩

@[simp] theorem bits_zero : (0 : Element R).bits = 0 := rfl

@[simp] theorem bits_add (a b : Element R) : (a + b).bits = a.bits ^^^ b.bits := rfl

theorem bits_eq_zero {a : Element R} : a.bits = 0 ↔ a = 0 := by
  constructor
  · intro h
    ext1
    exact h
  · rintro rfl
    rfl

/-- No power of the generator is zero. -/
theorem power_ne_zero (k : ℕ) : power R k ≠ 0 :=
  fun h => R.antilog_ne_zero k (congrArg bits h)

theorem power_mod (k : ℕ) : power R (k % R.period) = power R k := congrArg mk (R.antilog_mod k)

/-- Powers are equal exactly where the exponents are, modulo the period. -/
theorem power_inj {k m : ℕ} : power R k = power R m ↔ k % R.period = m % R.period := by
  constructor
  · intro h
    rw [← R.log_antilog, ← R.log_antilog]
    exact congrArg (fun a : Element R => R.log a.bits) h
  · intro h
    rw [← power_mod, h, power_mod]

/-- Exponents add. -/
theorem power_mul_power (k m : ℕ) : power R k * power R m = power R (k + m) := by
  have h : power R k * power R m =
      if power R k = 0 ∨ power R m = 0 then 0
        else ⟨R.antilog (R.log (R.antilog k) + R.log (R.antilog m))⟩ := rfl
  rw [h, if_neg (not_or.mpr ⟨power_ne_zero k, power_ne_zero m⟩), R.log_antilog, R.log_antilog,
    ← R.antilog_mod, ← Nat.add_mod]
  exact power_mod _

theorem zero_mul' (a : Element R) : 0 * a = 0 := if_pos (Or.inl rfl)

theorem mul_zero' (a : Element R) : a * 0 = 0 := if_pos (Or.inr rfl)

/-- Every element but zero is a power. -/
theorem eq_zero_or_power (a : Element R) : a = 0 ∨ ∃ k < R.period, a = power R k := by
  by_cases h : a = 0
  · exact Or.inl h
  · have hbits := bits_eq_zero.not.mpr h
    exact Or.inr ⟨R.log a.bits, R.log_lt hbits, Element.ext (R.antilog_log hbits).symm⟩

theorem power_mul (k : ℕ) (a : Element R) : power R k * a = ⟨R.step^[k] a.bits⟩ := by
  rcases eq_zero_or_power a with rfl | ⟨m, -, rfl⟩
  · rw [mul_zero', bits_zero, R.iterate_step_zero]
    rfl
  · rw [power_mul_power, power, power, R.antilog_add]

theorem mul_comm' (a b : Element R) : a * b = b * a := by
  rcases eq_zero_or_power a with rfl | ⟨k, -, rfl⟩
  · rw [zero_mul', mul_zero']
  rcases eq_zero_or_power b with rfl | ⟨m, -, rfl⟩
  · rw [zero_mul', mul_zero']
  rw [power_mul_power, power_mul_power, Nat.add_comm]

theorem mul_assoc' (a b c : Element R) : a * b * c = a * (b * c) := by
  rcases eq_zero_or_power a with rfl | ⟨k, -, rfl⟩
  · rw [zero_mul', zero_mul', zero_mul']
  rcases eq_zero_or_power b with rfl | ⟨m, -, rfl⟩
  · rw [mul_zero', zero_mul', mul_zero']
  rcases eq_zero_or_power c with rfl | ⟨k', -, rfl⟩
  · rw [mul_zero', mul_zero', mul_zero']
  rw [power_mul_power, power_mul_power, power_mul_power, power_mul_power, Nat.add_assoc]

theorem mul_add' (a b c : Element R) : a * (b + c) = a * b + a * c := by
  rcases eq_zero_or_power a with rfl | ⟨k, -, rfl⟩
  · rw [zero_mul', zero_mul', zero_mul']
    exact Element.ext (BitVec.xor_self (x := 0)).symm
  · rw [power_mul, power_mul, power_mul, bits_add, R.iterate_step_xor]
    rfl

theorem one_mul' (a : Element R) : 1 * a = a := power_mul 0 a

theorem power_period : power R R.period = 1 := congrArg mk R.cycle

theorem mul_inv' (a : Element R) (h : a ≠ 0) : a * a⁻¹ = 1 := by
  obtain ⟨k, hk, rfl⟩ := (eq_zero_or_power a).resolve_left h
  have hinv : (power R k)⁻¹ = power R (R.period - k) := by
    have h' : (power R k)⁻¹ =
        if power R k = 0 then 0 else power R (R.period - R.log (R.antilog k)) := rfl
    rw [h', if_neg h, R.log_antilog, Nat.mod_eq_of_lt hk]
  rw [hinv, power_mul_power, Nat.add_sub_of_le hk.le, power_period]

instance : Field (Element R) where
  add_assoc a b c := Element.ext (BitVec.xor_assoc _ _ _)
  zero_add a := Element.ext BitVec.zero_xor
  add_zero a := Element.ext BitVec.xor_zero
  add_comm a b := Element.ext (BitVec.xor_comm _ _)
  neg_add_cancel a := Element.ext BitVec.xor_self
  nsmul := nsmulRec
  zsmul := zsmulRec
  mul_assoc := mul_assoc'
  mul_comm := mul_comm'
  one_mul := one_mul'
  mul_one a := (mul_comm' a 1).trans (one_mul' a)
  left_distrib := mul_add'
  right_distrib a b c := by
    rw [mul_comm' (a + b), mul_add', mul_comm' c, mul_comm' c]
  zero_mul := zero_mul'
  mul_zero := mul_zero'
  sub_eq_add_neg a b := rfl
  exists_pair_ne := ⟨0, 1, fun h => R.one_ne_zero (congrArg bits h).symm⟩
  mul_inv_cancel := mul_inv'
  inv_zero := if_pos rfl
  nnqsmul := _
  nnqsmul_def := fun _ _ => rfl
  qsmul := _
  qsmul_def := fun _ _ => rfl

theorem add_self (a : Element R) : a + a = 0 := Element.ext BitVec.xor_self

instance : CharP (Element R) 2 :=
  CharTwo.of_one_ne_zero_of_two_eq_zero (fun h => R.one_ne_zero (congrArg bits h))
    (by rw [← one_add_one_eq_two, add_self])

theorem power_eq_pow (k : ℕ) : power R k = power R 1 ^ k := by
  induction k with
  | zero => exact (pow_zero _).symm
  | succ k ih => rw [pow_succ, ← ih, power_mul_power]

/-- Exponents multiply. -/
theorem power_mul_eq_pow (k m : ℕ) : power R (k * m) = power R m ^ k := by
  rw [power_eq_pow, power_eq_pow m, ← pow_mul, Nat.mul_comm]

/-- The inverse of a power. -/
theorem inv_power {k : ℕ} (h : k ≤ R.period) : (power R k)⁻¹ = power R (R.period - k) := by
  refine inv_eq_of_mul_eq_one_right ?_
  rw [power_mul_power, Nat.add_sub_of_le h, power_period]

end Element

end Register

/-!
# The field of two hundred and fifty-six elements

Bytes stepped by the residue of `x` modulo `x^8 + x^4 + x^3 + x^2 + 1`, whose powers are
the nonzero bytes.
-/

/-- The product of a byte with the residue of `x`. -/
def timesX256 (a : BitVec 8) : BitVec 8 := (a <<< 1) ^^^ (if a.msb then 0x1D else 0)

theorem timesX256_xor (a b : BitVec 8) : timesX256 (a ^^^ b) = timesX256 a ^^^ timesX256 b := by
  have hcarry : (if (a ^^^ b).msb then (0x1D : BitVec 8) else 0) =
      (if a.msb then 0x1D else 0) ^^^ (if b.msb then 0x1D else 0) := by
    rw [BitVec.msb_xor]
    cases a.msb <;> cases b.msb <;> rfl
  rw [timesX256, timesX256, timesX256, hcarry, BitVec.shiftLeft_xor_distrib]
  ac_rfl

/-- The register of the field. -/
def register256 : Register 8 where
  step := timesX256
  width_pos := by decide
  step_xor := timesX256_xor
  step_ne_zero := by decide +kernel
  cycle := by decide +kernel
  absent := by decide +kernel

/-- An element by its byte. -/
abbrev Gf256 := Register.Element register256

end DsdNeo.Galois
