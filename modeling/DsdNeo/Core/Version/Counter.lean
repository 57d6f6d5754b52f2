import Mathlib.Data.Nat.ModEq

/-!
# A wrapping counter that never shows zero

Version counters of `w` bits advance by one and step over zero. Starting anywhere,
such a counter repeats a value only after `2 ^ w - 1` advances, so within fewer
advances its value tells how often it moved.
-/

namespace DsdNeo.Version

variable {w : ℕ}

/-- Advance, and step over zero. -/
def bump (g : BitVec w) : BitVec w := if g + 1 = 0 then 1 else g + 1

/-- Where `n` advances lead. -/
theorem toNat_iterate_bump (hw : 1 < 2 ^ w) (g : BitVec w) (n : ℕ) :
    (bump^[n + 1] g).toNat = (g.toNat + n) % (2 ^ w - 1) + 1 := by
  have hone : (1 : BitVec w).toNat = 1 := Nat.mod_eq_of_lt hw
  have hbump : ∀ h : BitVec w, (bump h).toNat = h.toNat % (2 ^ w - 1) + 1 := by
    intro h
    have hlt := h.isLt
    have hsum : (h + 1).toNat = (h.toNat + 1) % 2 ^ w := by rw [BitVec.toNat_add, hone]
    by_cases hlast : h.toNat + 1 = 2 ^ w
    · have hzero : h + 1 = 0 := by
        apply BitVec.eq_of_toNat_eq
        rw [hsum, hlast, Nat.mod_self]
        rfl
      rw [bump, if_pos hzero, hone, show h.toNat = 2 ^ w - 1 by omega, Nat.mod_self]
    · have hne : h + 1 ≠ 0 := by
        intro heq
        have := congrArg BitVec.toNat heq
        rw [hsum, Nat.mod_eq_of_lt (by omega)] at this
        simp at this
      rw [bump, if_neg hne, hsum, Nat.mod_eq_of_lt (by omega), Nat.mod_eq_of_lt (by omega)]
  induction n with
  | zero => exact hbump g
  | succ n ih =>
    rw [Function.iterate_succ_apply', hbump, ih, Nat.mod_add_mod, Nat.add_assoc]

theorem iterate_bump_ne {n : ℕ} (hn : n + 1 < 2 ^ w - 1) (g : BitVec w) : bump^[n + 1] g ≠ g := by
  intro heq
  have hnat := toNat_iterate_bump (by omega) g n
  rw [heq] at hnat
  have hpos : g.toNat - 1 + (n + 1) = g.toNat + n := by omega
  have hlow : g.toNat - 1 < 2 ^ w - 1 := by have := g.isLt; omega
  have hmod : (g.toNat - 1 + (n + 1)) % (2 ^ w - 1) = g.toNat - 1 := by rw [hpos]; omega
  rcases Nat.lt_or_ge (g.toNat - 1 + (n + 1)) (2 ^ w - 1) with hlt | hge
  · rw [Nat.mod_eq_of_lt hlt] at hmod
    omega
  · rw [Nat.mod_eq_sub_mod hge, Nat.mod_eq_of_lt (by omega)] at hmod
    omega

/-- Within `2 ^ w - 1` advances the value tells their number. -/
theorem iterate_bump_injective {m n : ℕ} (hm : m < 2 ^ w - 1) (hn : n < 2 ^ w - 1) {g : BitVec w}
    (h : bump^[m] g = bump^[n] g) : m = n := by
  wlog hle : m ≤ n generalizing m n
  · exact (this hn hm h.symm (by omega)).symm
  obtain ⟨k, rfl⟩ := Nat.exists_eq_add_of_le hle
  rw [Nat.add_comm, Function.iterate_add_apply] at h
  cases k with
  | zero => rfl
  | succ k => exact absurd h.symm (iterate_bump_ne (by omega) _)

end DsdNeo.Version
