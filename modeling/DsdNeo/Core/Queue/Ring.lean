import Mathlib.Data.List.Forall2
import Mathlib.Data.Nat.ModEq

/-!
# Running counters behind circular indices

A circular buffer keeps two indices below its capacity. Behind each stands a running
counter: how many values were ever put in, and how many ever taken out. The indices are
the counters modulo the capacity, and while fewer than a capacity lie between the
counters the indices tell how many.
-/

namespace DsdNeo.Counters

variable {cap : ℕ}

/-- Steps from one index forward to another. -/
def gap (cap h t : ℕ) : ℕ := if h ≥ t then h - t else cap - t + h

/-- An index moved forward by at most a capacity. -/
def wrap (cap i : ℕ) : ℕ := if i ≥ cap then i - cap else i

/-- The two runs of places that follow an index: up to the end, then from the start. -/
def spans (cap i n : ℕ) : ℕ × ℕ := if cap - i ≥ n then (n, 0) else (cap - i, n - (cap - i))

/-- The place of a position in two runs that start at an index and at `0`. -/
def place (i n₁ k : ℕ) : ℕ := if k < n₁ then i + k else k - n₁

/-- The gap of two indices is the distance of their positions. -/
theorem gap_mod {p c : ℕ} (h : c ≤ p) (hp : p < c + cap) : gap cap (p % cap) (c % cap) = p - c := by
  have hcap : 0 < cap := by omega
  have hdp := Nat.div_add_mod p cap
  have hdc := Nat.div_add_mod c cap
  have hmp := Nat.mod_lt p hcap
  have hmc := Nat.mod_lt c hcap
  have hlow : c / cap ≤ p / cap := Nat.div_le_div_right h
  have hhigh : p / cap ≤ c / cap + 1 := by
    have : p / cap ≤ (c + cap) / cap := Nat.div_le_div_right hp.le
    rwa [Nat.add_div_right c hcap] at this
  rcases Nat.eq_or_lt_of_le hlow with heq | hlt
  · rw [← heq] at hdp
    unfold gap
    split <;> omega
  · have hnext : p / cap = c / cap + 1 := by omega
    rw [hnext, Nat.mul_add] at hdp
    unfold gap
    split <;> omega

/-- An index carried over the end is the one of the next position. -/
theorem wrap_mod {p n : ℕ} (hcap : 0 < cap) (hn : n ≤ cap) :
    wrap cap (p % cap + n) = (p + n) % cap := by
  have hm := Nat.mod_lt p hcap
  rw [← Nat.mod_add_mod]
  unfold wrap
  split
  · next h =>
    have hle : p % cap + n - cap ≤ cap := by omega
    rw [Nat.mod_eq_sub_mod h]
    by_cases hlt : p % cap + n - cap < cap
    · exact (Nat.mod_eq_of_lt hlt).symm
    · omega
  · next h => exact (Nat.mod_eq_of_lt (Nat.lt_of_not_ge h)).symm

/-- The `k`-th place of two spans is that of the `k`-th position. -/
theorem place_mod {p n k : ℕ} (hcap : 0 < cap) (hn : n ≤ cap) (hk : k < n) :
    place (p % cap) (spans cap (p % cap) n).1 k = (p + k) % cap := by
  have hm := Nat.mod_lt p hcap
  rw [← wrap_mod hcap (by omega)]
  unfold place spans wrap
  by_cases hfit : cap - p % cap ≥ n
  · rw [if_pos hfit, if_pos hk, if_neg (by omega)]
  · rw [if_neg hfit]
    dsimp only
    split_ifs <;> omega

/-- The two spans hold all the places asked for. -/
theorem spans_total (cap i n : ℕ) : (spans cap i n).1 + (spans cap i n).2 = n := by
  unfold spans
  split <;> omega

/-- Positions less than a turn apart have places of their own. -/
theorem mod_ne_mod {j k : ℕ} (hjk : j < k) (hk : k < j + cap) : j % cap ≠ k % cap := by
  intro h
  have hgap := gap_mod hjk.le hk
  rw [h] at hgap
  unfold gap at hgap
  rw [if_pos (le_refl _)] at hgap
  omega

end DsdNeo.Counters
