import Mathlib.Data.List.Basic
import Mathlib.Data.List.Induction
import Mathlib.Data.Nat.ModEq
import Mathlib.Tactic.Ring

/-!
# A register that keeps what it received

Entries of a history give a register a value, take its value away, or leave it
alone. The register holds a value exactly when some entry gave it one and none
since took it away, and then it holds the last value given.
-/

namespace DsdNeo.Register

open List

/-- What an entry does to the register. -/
inductive Effect (α : Type) where
  | receive (value : α)
  | withdraw
  | keep

variable {α ε : Type}

/-- What the register holds after an entry. -/
def Effect.apply : Effect α → Option α → Option α
  | .receive v, _ => some v
  | .withdraw, _ => none
  | .keep, held => held

/-- What the register holds after a history, oldest entry first. -/
def held (effect : ε → Effect α) (history : List ε) : Option α :=
  history.foldl (fun h e => (effect e).apply h) none

/-- Some entry of the history is a `p`, and every later one is a `q`. -/
def Since (p q : ε → Prop) (history : List ε) : Prop :=
  ∃ pre e post, history = pre ++ e :: post ∧ p e ∧ ∀ l ∈ post, q l

@[simp] theorem held_nil (effect : ε → Effect α) : held effect [] = none := rfl

@[simp] theorem held_append_singleton (effect : ε → Effect α) (history : List ε) (e : ε) :
    held effect (history ++ [e]) = (effect e).apply (held effect history) := by
  simp [held]

theorem not_since_nil (p q : ε → Prop) : ¬ Since p q [] := by
  rintro ⟨pre, e, post, h, -⟩
  simp at h

theorem since_congr {p p' q q' : ε → Prop} {history : List ε} (hp : ∀ e ∈ history, p e ↔ p' e)
    (hq : ∀ e ∈ history, q e ↔ q' e) : Since p q history ↔ Since p' q' history := by
  constructor
  · rintro ⟨pre, e, post, rfl, hpe, hqe⟩
    refine ⟨pre, e, post, rfl, (hp e (by simp)).mp hpe, ?_⟩
    intro l hl
    exact (hq l (by simp [hl])).mp (hqe l hl)
  · rintro ⟨pre, e, post, rfl, hpe, hqe⟩
    refine ⟨pre, e, post, rfl, (hp e (by simp)).mpr hpe, ?_⟩
    intro l hl
    exact (hq l (by simp [hl])).mpr (hqe l hl)

/-- The last entry is the one, or it keeps what an earlier one began. -/
theorem since_append_singleton {p q : ε → Prop} {history : List ε} {e : ε} :
    Since p q (history ++ [e]) ↔ p e ∨ (q e ∧ Since p q history) := by
  constructor
  · rintro ⟨pre, x, post, h, hp, hq⟩
    rcases eq_nil_or_concat post with rfl | ⟨init, last, rfl⟩
    · obtain ⟨-, rfl⟩ := append_inj' h rfl |>.imp_right singleton_inj.mp
      exact .inl hp
    · rw [concat_eq_append] at h hq
      rw [← cons_append, ← append_assoc] at h
      obtain ⟨rfl, hlast⟩ := append_inj' h rfl
      obtain rfl := singleton_inj.mp hlast
      refine .inr ⟨hq e (by simp), pre, x, init, rfl, hp, ?_⟩
      intro l hl
      exact hq l (by simp [hl])
  · rintro (hp | ⟨hqe, pre, x, post, rfl, hp, hq⟩)
    · exact ⟨history, e, [], rfl, hp, by simp⟩
    · refine ⟨pre, x, post ++ [e], by simp, hp, ?_⟩
      intro l hl
      rcases mem_append.mp hl with hl | hl
      · exact hq l hl
      · rw [mem_singleton.mp hl]
        exact hqe

/-- In a history of the first numbers, the entries after one are the numbers above it. -/
theorem since_range {p q : ℕ → Prop} {n : ℕ} :
    Since p q (List.range n) ↔ ∃ m, m < n ∧ p m ∧ ∀ j, m < j → j < n → q j := by
  induction n with
  | zero => simp [not_since_nil]
  | succ n ih =>
    rw [range_succ, since_append_singleton, ih]
    constructor
    · rintro (hp | ⟨hq, m, hm, hp, hlater⟩)
      · exact ⟨n, by omega, hp, fun j hj hjn => by omega⟩
      · refine ⟨m, by omega, hp, fun j hj hjn => ?_⟩
        rcases Nat.lt_succ_iff_lt_or_eq.mp hjn with hlt | rfl
        · exact hlater j hj hlt
        · exact hq
    · rintro ⟨m, hm, hp, hlater⟩
      rcases Nat.lt_succ_iff_lt_or_eq.mp hm with hlt | rfl
      · exact .inr ⟨hlater n hlt (by omega), m, hlt, hp, fun j hj hjn => hlater j hj (by omega)⟩
      · exact .inl hp

/-- The register holds a value once it was given one that none since took away. -/
theorem held_isSome_iff (effect : ε → Effect α) (history : List ε) :
    (held effect history).isSome ↔
      Since (fun e => ∃ v, effect e = .receive v) (fun e => effect e ≠ .withdraw) history := by
  induction history using List.reverseRecOn with
  | nil => simp [not_since_nil]
  | append_singleton history e ih =>
    rw [held_append_singleton, since_append_singleton, ← ih]
    cases effect e with
    | receive v => simp [Effect.apply]
    | withdraw => simp [Effect.apply]
    | keep => simp [Effect.apply]

/-- The value is the last one given. -/
theorem held_eq_some_iff (effect : ε → Effect α) (history : List ε) (v : α) :
    held effect history = some v ↔
      Since (fun e => effect e = .receive v) (fun e => effect e = .keep) history := by
  induction history using List.reverseRecOn with
  | nil => simp [not_since_nil]
  | append_singleton history e ih =>
    rw [held_append_singleton, since_append_singleton, ← ih]
    cases effect e with
    | receive w => simp [Effect.apply]
    | withdraw => simp [Effect.apply]
    | keep => simp [Effect.apply]

end DsdNeo.Register

/-!
# Shift registers that synchronise themselves

A register of `n` bits that takes in one bit at a time, and a second one that takes in
the same bits from another start. The second starts again from 1 whenever it is zero.
After `2 n - 1` bits the two are equal, as long as the first is never zero: the second
starts again at most once, while it still has bits of its start.
-/

namespace DsdNeo.SelfSync

variable {n : ℕ}

/-- Take in a bit and drop the oldest. -/
def push (n r b : ℕ) : ℕ := (2 * r + b) % 2 ^ n

/-- The register, or 1 for zero. -/
def refilled (r : ℕ) : ℕ := if r = 0 then 1 else r

/-- How far a register `r` is behind `s` after `t` bits: it has the last `t` bits of `s`,
or those since it started again with a 1 above them, or it is equal. -/
inductive Trails (n t r s : ℕ) : Prop where
  | filling (room : t < n) (fresh : t = 0 → r ≠ 0) (same : r % 2 ^ t = s % 2 ^ t)
  | again (j : ℕ) (room : j < n) (since : t + 1 ≤ j + n)
      (same : r % 2 ^ (j + 1) = 2 ^ j + s % 2 ^ j)
  | equal (same : r = s)

theorem push_lt (n r b : ℕ) : push n r b < 2 ^ n := Nat.mod_lt _ (Nat.two_pow_pos n)

variable {t r s : ℕ}

/-- The low bits of a register are those it had and the bit taken in. -/
theorem push_mod (ht : t + 1 ≤ n) (r b : ℕ) :
    push n r b % 2 ^ (t + 1) = (2 * (r % 2 ^ t) + b) % 2 ^ (t + 1) := by
  rw [push, Nat.mod_mod_of_dvd _ (Nat.pow_dvd_pow 2 ht), pow_succ', Nat.add_mod,
    Nat.mul_mod_mul_left]
  conv_rhs => rw [Nat.add_mod, Nat.mul_mod_mul_left, Nat.mod_mod]

theorem push_eq_of_mod (ht : t + 1 = n) (h : r % 2 ^ t = s % 2 ^ t) (b : ℕ) :
    push n r b = push n s b := by
  have hr := push_mod ht.le r b
  have hs := push_mod ht.le s b
  rw [ht, Nat.mod_eq_of_lt (push_lt n _ b)] at hr hs
  rw [hr, hs, h]

theorem Trails.push {b : ℕ} (hn : 2 ≤ n) (hb : b < 2) (hs : s ≠ 0) (h : Trails n t r s) :
    Trails n (t + 1) (push n (refilled r) b) (push n s b) := by
  cases h with
  | filling room fresh same =>
    by_cases hr : r = 0
    · -- the register starts again, with the bit taken in below the 1
      subst hr
      have ht : t ≠ 0 := fun ht => fresh ht rfl
      refine .again 1 (by omega) (by omega) ?_
      rw [refilled, if_pos rfl, push_mod (by omega), push_mod (t := 0) (by omega)]
      have hone : 1 % 2 ^ 1 = 1 := rfl
      rw [hone]
      omega
    · rw [refilled, if_neg hr]
      rcases Nat.lt_or_ge (t + 1) n with hlt | hge
      · refine .filling hlt (by omega) ?_
        rw [push_mod hlt.le, push_mod hlt.le, same]
      · exact .equal (push_eq_of_mod (by omega) same b)
  | again j room since same =>
    have hr : r ≠ 0 := by
      rintro rfl
      have hpos := Nat.two_pow_pos j
      rw [Nat.zero_mod] at same
      omega
    rw [refilled, if_neg hr]
    have hlow : r % 2 ^ j = s % 2 ^ j := by
      have hmod := congrArg (· % 2 ^ j) same
      simpa [Nat.mod_mod_of_dvd _ (Nat.pow_dvd_pow 2 (Nat.le_succ j))] using hmod
    rcases Nat.lt_or_ge (j + 1) n with hlt | hge
    · refine .again (j + 1) hlt (by omega) ?_
      have hbits := Nat.mod_lt s (Nat.two_pow_pos j)
      have hpow : 2 ^ (j + 1) = 2 * 2 ^ j := pow_succ' 2 j
      have hpow' : 2 ^ (j + 1 + 1) = 2 * 2 ^ (j + 1) := pow_succ' 2 (j + 1)
      have hlow' : 2 * (s % 2 ^ j) + b < 2 ^ (j + 1) := by omega
      have hall : 2 * (2 ^ j + s % 2 ^ j) + b < 2 ^ (j + 1 + 1) := by omega
      rw [push_mod hlt, same, push_mod hlt.le, Nat.mod_eq_of_lt hlow', Nat.mod_eq_of_lt hall]
      omega
    · exact .equal (push_eq_of_mod (by omega) hlow b)
  | equal same =>
    subst same
    rw [refilled, if_neg hs]
    exact .equal rfl

/-- After `2 n - 1` bits nothing of the start is left. -/
theorem Trails.eq (h : Trails n t r s) (ht : 2 * n ≤ t + 1) : r = s := by
  cases h with
  | filling room => omega
  | again j room since => omega
  | equal same => exact same

end DsdNeo.SelfSync
