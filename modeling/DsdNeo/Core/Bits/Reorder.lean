import Mathlib.Data.List.Nodup

/-!
# Moving the elements of a buffer

The loops by which a coding chain moves bits: storing each element at a computed
index, dropping the elements a pattern punctures, and standing in a value for
each of them again. Stores at pairwise distinct indices do not interfere, and
expanding what was selected restores every element that was kept.
-/

namespace DsdNeo.Reorder

open List

variable {α : Type*}

/-- Run the stores in order. -/
def scatter (writes : List (ℕ × α)) (out : List α) : List α :=
  writes.foldl (fun out w => out.set w.1 w.2) out

@[simp] theorem scatter_cons (w : ℕ × α) (writes : List (ℕ × α)) (out : List α) :
    scatter (w :: writes) out = scatter writes (out.set w.1 w.2) := rfl

@[simp] theorem length_scatter (writes : List (ℕ × α)) (out : List α) :
    (scatter writes out).length = out.length := by
  induction writes generalizing out with
  | nil => rfl
  | cons w writes ih => simp [ih]

variable {writes : List (ℕ × α)}

/-- A place not written stays. -/
theorem getElem?_scatter_of_notMem {k : ℕ} (h : k ∉ writes.map Prod.fst) (out : List α) :
    (scatter writes out)[k]? = out[k]? := by
  induction writes generalizing out with
  | nil => rfl
  | cons w writes ih =>
    obtain ⟨hne, hnot⟩ : k ≠ w.1 ∧ k ∉ writes.map Prod.fst := by simpa using h
    rw [scatter_cons, ih hnot, getElem?_set_ne hne.symm]

/-- Among stores at distinct indices, each one is found where it was made. -/
theorem getElem?_scatter (hn : (writes.map Prod.fst).Nodup) {k : ℕ} {x : α} (h : (k, x) ∈ writes)
    {out : List α} (hk : k < out.length) : (scatter writes out)[k]? = some x := by
  induction writes generalizing out with
  | nil => simp at h
  | cons w writes ih =>
    obtain ⟨hnot, hn⟩ := nodup_cons.mp hn
    rw [scatter_cons]
    rcases mem_cons.mp h with rfl | hmem
    · rw [getElem?_scatter_of_notMem hnot, getElem?_set_self hk]
    · exact ih hn hmem (by simpa using hk)

/-- A place holds what all its writes agree on. -/
theorem getElem?_scatter_of_agree {k : ℕ} {x : α} (hmem : k ∈ writes.map Prod.fst)
    (hagree : ∀ w ∈ writes, w.1 = k → w.2 = x) {out : List α} (hk : k < out.length) :
    (scatter writes out)[k]? = some x := by
  induction writes generalizing out with
  | nil => cases hmem
  | cons w writes ih =>
    rw [scatter_cons]
    have hrest : ∀ w' ∈ writes, w'.1 = k → w'.2 = x := fun w' hw' =>
      hagree w' (mem_cons_of_mem w hw')
    by_cases hlater : k ∈ writes.map Prod.fst
    · exact ih hlater hrest (by rw [length_set]; exact hk)
    · obtain hfirst : k = w.1 := by
        rcases mem_cons.mp hmem with heq | hmem'
        · exact heq
        · exact absurd hmem' hlater
      rw [getElem?_scatter_of_notMem hlater, hfirst, getElem?_set_self (by rw [← hfirst]; exact hk),
        hagree w mem_cons_self hfirst.symm]

variable {β : Type*}

theorem map_scatter (f : α → β) (writes : List (ℕ × α)) (out : List α) :
    (scatter writes out).map f = scatter (writes.map fun w => (w.1, f w.2)) (out.map f) := by
  induction writes generalizing out with
  | nil => rfl
  | cons w writes ih => rw [scatter_cons, ih, map_cons, scatter_cons, map_set]

/-- The positions a puncturer keeps of the `n` from `i` on: those of the pattern,
while there is room. -/
def kept (keep : ℕ → Bool) : ℕ → ℕ → ℕ → List Bool
  | _, _, 0 => []
  | room, i, n + 1 =>
    bif keep i && Nat.ble 1 room then true :: kept keep (room - 1) (i + 1) n
    else false :: kept keep room (i + 1) n

@[simp] theorem length_kept (keep : ℕ → Bool) (room i n : ℕ) : (kept keep room i n).length = n := by
  induction n generalizing room i with
  | zero => rfl
  | succ n ih =>
    rw [kept]
    cases keep i && Nat.ble 1 room <;> simp [ih]

/-- The elements at the kept positions. -/
def select : List Bool → List α → List α
  | true :: mask, x :: xs => x :: select mask xs
  | false :: mask, _ :: xs => select mask xs
  | _, _ => []

theorem map_select (f : α → β) (mask : List Bool) (xs : List α) :
    (select mask xs).map f = select mask (xs.map f) := by
  induction mask generalizing xs with
  | nil => rfl
  | cons m mask ih =>
    obtain _ | ⟨x, xs⟩ := xs
    · cases m <;> rfl
    · cases m <;> simp [select, ih]

/-- The elements put back at the kept positions, with `fill` at the others. -/
def expand (fill : α) : List Bool → List α → List α
  | true :: mask, y :: ys => y :: expand fill mask ys
  | true :: mask, [] => fill :: expand fill mask []
  | false :: mask, ys => fill :: expand fill mask ys
  | [], _ => []

/-- A sequence with `fill` at the positions that are not kept. -/
def masked (fill : α) (mask : List Bool) (xs : List α) : List α :=
  List.zipWith (fun m x => bif m then x else fill) mask xs

/-- Expanding what was selected gives the list back, filled elsewhere. -/
theorem expand_select (fill : α) (mask : List Bool) (xs rest : List α)
    (h : mask.length = xs.length) :
    expand fill mask (select mask xs ++ rest) = masked fill mask xs := by
  induction mask generalizing xs with
  | nil => rfl
  | cons m mask ih =>
    obtain _ | ⟨x, xs⟩ := xs
    · simp at h
    have hrest := ih xs (by simpa using h)
    cases m
    · exact congrArg (fill :: ·) hrest
    · exact congrArg (x :: ·) hrest

theorem map_masked (f : α → β) (fill : α) (mask : List Bool) (xs : List α) :
    (masked fill mask xs).map f = masked (f fill) mask (xs.map f) := by
  rw [masked, map_zipWith, masked, zipWith_map_right]
  congr 1
  funext m x
  cases m <;> rfl

theorem map_expand (f : α → β) (fill : α) (mask : List Bool) (xs : List α) :
    (expand fill mask xs).map f = expand (f fill) mask (xs.map f) := by
  fun_induction expand fill mask xs <;> simp_all [expand]

end DsdNeo.Reorder
