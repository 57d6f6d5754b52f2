import Mathlib.Data.List.Basic
import Mathlib.Algebra.Order.Group.Nat

/-!
# Compaction in place

The entries of an array that pass a test, moved to its front one after another.
-/

namespace DsdNeo.Queue

open List

variable {α : Type}

/-- One step: an entry that passes is moved to the next place kept. -/
def moveStep (keep : α → Bool) (s : (ℕ → α) × ℕ) (i : ℕ) : (ℕ → α) × ℕ :=
  if keep (s.1 i) then (if s.2 ≠ i then Function.update s.1 s.2 (s.1 i) else s.1, s.2 + 1) else s

/-- The array after the first entries were looked at, and how many of them were kept. -/
def moveUp (keep : α → Bool) (a : ℕ → α) (n : ℕ) : (ℕ → α) × ℕ :=
  (List.range n).foldl (moveStep keep) (a, 0)

theorem moveUp_succ (keep : α → Bool) (a : ℕ → α) (n : ℕ) :
    moveUp keep a (n + 1) = moveStep keep (moveUp keep a n) n := by
  simp [moveUp, range_succ]

/-- What moves up are the entries kept, in order; those past the end stay. -/
theorem moveUp_spec (keep : α → Bool) (a : ℕ → α) (n : ℕ) :
    (moveUp keep a n).2 ≤ n ∧
      (List.range (moveUp keep a n).2).map (moveUp keep a n).1 =
        ((List.range n).map a).filter keep ∧ ∀ i, n ≤ i → (moveUp keep a n).1 i = a i := by
  induction n with
  | zero => exact ⟨le_rfl, rfl, fun _ _ => rfl⟩
  | succ n ih =>
    obtain ⟨hle, hkept, hrest⟩ := ih
    rw [moveUp_succ, moveStep, hrest n le_rfl, range_succ, map_append, filter_append,
      map_singleton, filter_singleton]
    by_cases hkeep : keep (a n) = true
    · have hmoved : (if (moveUp keep a n).2 ≠ n then
          Function.update (moveUp keep a n).1 (moveUp keep a n).2 (a n)
          else (moveUp keep a n).1) =
            Function.update (moveUp keep a n).1 (moveUp keep a n).2 (a n) := by
        split
        · rfl
        · rename_i hsame
          rw [not_not.mp hsame, ← hrest n le_rfl, Function.update_eq_self]
      rw [if_pos hkeep, hkeep, hmoved]
      refine ⟨by omega, ?_, fun i hi => ?_⟩
      · dsimp only
        rw [range_succ, map_append, map_singleton, Function.update_self, ← hkept]
        congr 1
        apply map_congr_left
        intro i hi
        rw [Function.update_of_ne (mem_range.mp hi).ne]
      · dsimp only
        rw [Function.update_of_ne (by omega), hrest i (by omega)]
    · have hdrop : keep (a n) = false := by simpa using hkeep
      rw [if_neg hkeep, hdrop]
      exact ⟨by omega, by simpa using hkept, fun i hi => hrest i (by omega)⟩

end DsdNeo.Queue
