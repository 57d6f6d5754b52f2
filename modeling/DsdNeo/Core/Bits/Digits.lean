import Mathlib.Tactic.Ring

/-!
# Numbers made of digits

A loop that shifts a number up by one digit and puts the next digit in at the
bottom, over any base. The digits of the number are the digits put in, the first
the highest, and a number below the power of the base is the number of its digits.
-/

namespace DsdNeo.Digits

/-- The number of the digits `f 0 .. f (n - 1)`, the first the highest. -/
def number (b : ℕ) (f : ℕ → ℕ) (n : ℕ) : ℕ := (List.range n).foldl (fun x k => x * b + f k) 0

/-- No digits make zero. -/
@[simp] theorem number_zero (b : ℕ) (f : ℕ → ℕ) : number b f 0 = 0 := rfl

/-- A further digit is put in at the bottom. -/
theorem number_succ (b : ℕ) (f : ℕ → ℕ) (n : ℕ) : number b f (n + 1) = number b f n * b + f n := by
  simp [number, List.range_succ]

variable {b n : ℕ}

/-- The number depends on its digits alone. -/
theorem number_congr {f g : ℕ → ℕ} (h : ∀ k, k < n → f k = g k) : number b f n = number b g n := by
  induction n with
  | zero => rfl
  | succ n ih => rw [number_succ, number_succ, ih fun k hk => h k (by omega), h n (by omega)]

/-- A number of `n` digits lies below the `n`th power of the base. -/
theorem number_lt {f : ℕ → ℕ} (hf : ∀ k, k < n → f k < b) : number b f n < b ^ n := by
  induction n with
  | zero => simp
  | succ n ih =>
    have hprev := ih fun k hk => hf k (by omega)
    have hlast := hf n (by omega)
    calc number b f (n + 1) = number b f n * b + f n := number_succ b f n
      _ < (number b f n + 1) * b := by rw [Nat.succ_mul]; omega
      _ ≤ b ^ n * b := Nat.mul_le_mul_right b hprev
      _ = b ^ (n + 1) := (pow_succ b n).symm

/-- Digit `k` of the number is digit `k` put in. -/
theorem digit_number (hb : 0 < b) {f : ℕ → ℕ} {k : ℕ} (hf : ∀ k, k < n → f k < b) (hk : k < n) :
    number b f n / b ^ (n - 1 - k) % b = f k := by
  induction n with
  | zero => omega
  | succ n ih =>
    have hlast := hf n (by omega)
    rw [number_succ]
    by_cases heq : k = n
    · subst k
      rw [Nat.add_sub_cancel, Nat.sub_self, pow_zero, Nat.div_one, Nat.add_comm,
        Nat.add_mul_mod_self_right, Nat.mod_eq_of_lt hlast]
    · have hdiv : (number b f n * b + f n) / b = number b f n := by
        rw [Nat.add_comm, Nat.add_mul_div_right _ _ hb, Nat.div_eq_of_lt hlast, Nat.zero_add]
      rw [show n + 1 - 1 - k = n - 1 - k + 1 by omega, pow_succ', ← Nat.div_div_eq_div_mul, hdiv]
      exact ih (fun k hk => hf k (by omega)) (by omega)

/-- A number below the power of the base is the number of its digits. -/
theorem number_digits {x : ℕ} (hx : x < b ^ n) :
    number b (fun k => x / b ^ (n - 1 - k) % b) n = x := by
  induction n generalizing x with
  | zero => rw [number_zero]; rw [pow_zero] at hx; omega
  | succ n ih =>
    have hhigh : number b (fun k => x / b ^ (n + 1 - 1 - k) % b) n = x / b := by
      have hlt : x / b < b ^ n := Nat.div_lt_of_lt_mul (by rwa [pow_succ'] at hx)
      refine (number_congr fun k hk => ?_).trans (ih hlt)
      rw [show n + 1 - 1 - k = n - 1 - k + 1 by omega, pow_succ', Nat.div_div_eq_div_mul]
    rw [number_succ, hhigh, Nat.add_sub_cancel, Nat.sub_self, pow_zero, Nat.div_one]
    exact Nat.div_add_mod' x b

end DsdNeo.Digits
