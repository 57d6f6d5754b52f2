import DsdNeo.Core.Galois.Register

/-!
# The field of sixty-four elements

An element is six bits, the coefficients of a polynomial below degree six. The sum is
exclusive or; the product goes through the powers of the residue of `x` modulo
`x^6 + x + 1`, whose first sixty-three powers are the nonzero elements.
-/

namespace DsdNeo.Galois

/-- An element by its six coefficients. -/
@[ext]
structure Gf64 where
  bits : BitVec 6
deriving DecidableEq, Repr

namespace Gf64

/-- The product with the residue of `x`. -/
def timesX (a : BitVec 6) : BitVec 6 := (a <<< 1) ^^^ (if a.msb then 0b000011 else 0)

/-- The powers of the residue of `x`. -/
def antilog : ℕ → BitVec 6
  | 0 => 1
  | k + 1 => timesX (antilog k)

/-- The exponent of a nonzero element. -/
def log (a : BitVec 6) : ℕ := ((List.range 63).map antilog).idxOf a

/-- The register of the field. -/
def register64 : Register 6 where
  step := timesX
  width_pos := by decide
  step_xor := by decide +kernel
  step_ne_zero := by decide
  cycle := by decide +kernel
  absent := by decide +kernel

/-- The table of powers is the register's. -/
theorem antilog_eq (k : ℕ) : antilog k = register64.antilog k := by
  induction k with
  | zero => rfl
  | succ k ih => rw [antilog, ih, Register.antilog_succ, register64]

/-- The table of logarithms is the register's. -/
theorem log_eq (a : BitVec 6) : log a = register64.log a := by
  rw [log, Register.log, ← List.range_map_iterate]
  exact congrArg (List.idxOf a) (List.map_congr_left fun k _ => antilog_eq k)

/-- A logarithm is below the order. -/
theorem log_lt (a : BitVec 6) (h : a ≠ 0) : log a < 63 := by
  rw [log_eq]
  exact register64.log_lt h

/-- The logarithm of a power is its exponent, modulo the order. -/
theorem log_antilog (k : ℕ) : log (antilog k) = k % 63 := by
  rw [antilog_eq, log_eq]
  exact register64.log_antilog k

instance : Zero Gf64 := ⟨⟨0⟩⟩

instance : One Gf64 := ⟨⟨1⟩⟩

instance : Add Gf64 := ⟨fun a b => ⟨a.bits ^^^ b.bits⟩⟩

instance : Neg Gf64 := ⟨id⟩

instance : Sub Gf64 := ⟨fun a b => ⟨a.bits ^^^ b.bits⟩⟩

instance : Mul Gf64 :=
  ⟨fun a b => if a = 0 ∨ b = 0 then 0 else ⟨antilog ((log a.bits + log b.bits) % 63)⟩⟩

instance : Inv Gf64 := ⟨fun a => if a = 0 then 0 else ⟨antilog (63 - log a.bits)⟩⟩

/-- The residue of `x`, raised to a power. -/
def power (k : ℕ) : Gf64 := ⟨antilog k⟩

@[simp] theorem bits_add (a b : Gf64) : (a + b).bits = a.bits ^^^ b.bits := rfl

theorem bits_eq_zero {a : Gf64} : a.bits = 0 ↔ a = 0 := by
  constructor
  · intro h
    ext1
    exact h
  · rintro rfl
    rfl

/-- The word of the register. -/
def toElement (a : Gf64) : Register.Element register64 := ⟨a.bits⟩

/-- A symbol is its element of the register's field. -/
theorem toElement_injective : Function.Injective toElement := fun _ _ h =>
  Gf64.ext (congrArg Register.Element.bits h)

theorem toElement_eq_zero {a : Gf64} : a.toElement = 0 ↔ a = 0 := toElement_injective.eq_iff' rfl

/-- Sums of symbols are sums of elements. -/
theorem toElement_add (a b : Gf64) : (a + b).toElement = a.toElement + b.toElement := rfl

/-- Products of symbols are products of elements. -/
theorem toElement_mul (a b : Gf64) : (a * b).toElement = a.toElement * b.toElement := by
  by_cases h : a = 0 ∨ b = 0
  · rw [show a * b = 0 from if_pos h]
    rcases h with rfl | rfl
    · exact (zero_mul b.toElement).symm
    · exact (mul_zero a.toElement).symm
  · have hmul : a * b = ⟨antilog ((log a.bits + log b.bits) % 63)⟩ := if_neg h
    rw [← toElement_eq_zero, ← toElement_eq_zero] at h
    rw [hmul, toElement, antilog_eq, log_eq, log_eq]
    exact (congrArg Register.Element.mk (register64.antilog_mod _)).trans (if_neg h).symm

/-- Inverses of symbols are inverses of elements. -/
theorem toElement_inv (a : Gf64) : a⁻¹.toElement = a.toElement⁻¹ := by
  by_cases h : a = 0
  · rw [h]
    exact inv_zero.symm
  · have hinv : a⁻¹ = ⟨antilog (63 - log a.bits)⟩ := if_neg h
    rw [← toElement_eq_zero] at h
    rw [hinv, toElement, antilog_eq, log_eq]
    exact (if_neg h).symm

/-- Powers of the generator are the register's. -/
theorem toElement_power (k : ℕ) : (power k).toElement = Register.Element.power register64 k :=
  congrArg Register.Element.mk (antilog_eq k)

instance : Field Gf64 where
  add_assoc a b c := Gf64.ext (BitVec.xor_assoc _ _ _)
  zero_add a := Gf64.ext BitVec.zero_xor
  add_zero a := Gf64.ext BitVec.xor_zero
  add_comm a b := Gf64.ext (BitVec.xor_comm _ _)
  neg_add_cancel a := Gf64.ext BitVec.xor_self
  nsmul := nsmulRec
  zsmul := zsmulRec
  mul_assoc a b c := toElement_injective (by simp only [toElement_mul, mul_assoc])
  mul_comm a b := toElement_injective (by simp only [toElement_mul, mul_comm])
  one_mul a := toElement_injective ((toElement_mul 1 a).trans (one_mul a.toElement))
  mul_one a := toElement_injective ((toElement_mul a 1).trans (mul_one a.toElement))
  left_distrib a b c :=
    toElement_injective (by simp only [toElement_mul, toElement_add, mul_add])
  right_distrib a b c :=
    toElement_injective (by simp only [toElement_mul, toElement_add, add_mul])
  zero_mul a := if_pos (Or.inl rfl)
  mul_zero a := if_pos (Or.inr rfl)
  sub_eq_add_neg a b := rfl
  exists_pair_ne := ⟨0, 1, by decide⟩
  mul_inv_cancel a h := by
    refine toElement_injective ?_
    rw [toElement_mul, toElement_inv]
    exact mul_inv_cancel₀ (toElement_eq_zero.not.mpr h)
  inv_zero := if_pos rfl
  nnqsmul := _
  nnqsmul_def := fun _ _ => rfl
  qsmul := _
  qsmul_def := fun _ _ => rfl

instance : CharP Gf64 2 := CharTwo.of_one_ne_zero_of_two_eq_zero (by decide) (by decide)

/-- No power of the generator is zero. -/
theorem power_ne_zero (k : ℕ) : power k ≠ 0 := by
  rw [Ne, ← toElement_eq_zero, toElement_power]
  exact Register.Element.power_ne_zero k

/-- Powers are equal exactly where the exponents are, modulo the order. -/
theorem power_inj {k m : ℕ} : power k = power m ↔ k % 63 = m % 63 := by
  rw [← toElement_injective.eq_iff, toElement_power, toElement_power]
  exact Register.Element.power_inj

theorem power_mod (k : ℕ) : power (k % 63) = power k := power_inj.mpr (Nat.mod_mod k 63)

/-- A symbol is the power of its logarithm. -/
theorem power_log {a : Gf64} (h : a ≠ 0) : power (log a.bits) = a := by
  rw [power, antilog_eq, log_eq]
  exact Gf64.ext (register64.antilog_log (bits_eq_zero.not.mpr h))

/-- Exponents add. -/
theorem power_mul_power (k m : ℕ) : power k * power m = power (k + m) := by
  refine toElement_injective ?_
  rw [toElement_mul, toElement_power, toElement_power, toElement_power]
  exact Register.Element.power_mul_power k m

/-- Every symbol but zero is a power. -/
theorem eq_zero_or_power (a : Gf64) : a = 0 ∨ ∃ k < 63, a = power k := by
  by_cases h : a = 0
  · exact Or.inl h
  · exact Or.inr ⟨log a.bits, log_lt _ (bits_eq_zero.not.mpr h), (power_log h).symm⟩

/-- Exponents multiply. -/
theorem power_mul_eq_pow (k m : ℕ) : power (k * m) = power m ^ k := by
  induction k with
  | zero =>
    rw [Nat.zero_mul, pow_zero]
    rfl
  | succ k ih => rw [pow_succ, ← ih, power_mul_power, Nat.succ_mul]

/-- The inverse of a power. -/
theorem inv_power {k : ℕ} (h : k ≤ 63) : (power k)⁻¹ = power (63 - k) := by
  refine toElement_injective ?_
  rw [toElement_inv, toElement_power, toElement_power]
  exact Register.Element.inv_power h

end Gf64

end DsdNeo.Galois
