import DsdNeo.Core.Bits.Sizes
import Mathlib.Algebra.BigOperators.Group.Finset.Basic
import Mathlib.Data.Nat.Bitwise
import Mathlib.Data.Vector.Basic
import Mathlib.Order.Bounds.Basic

/-!
# Survivors of an add-compare-select trellis

A trellis has a set of states, an edge relation and a branch cost that may change from step to
step. An add-compare-select decoder carries one metric per state. Each of its steps is described by
two separate facts: it is `Relaxed`, so no edge offers a better metric than the one kept, and it is
`Traced`, so a metric below the cap is the one of the recorded predecessor.

From these two facts alone the final metric is a lower bound on every path into its state, and the
chain of recorded predecessors is a path that attains it.
-/

namespace DsdNeo.Trellis

variable {σ M : Type*}

/-- The states visited at times `0 .. n` follow the edges of the trellis. -/
def IsPath (edge : σ → σ → Prop) (n : ℕ) (p : ℕ → σ) : Prop :=
  ∀ t, t < n → edge (p t) (p (t + 1))

variable {n t : ℕ}

theorem IsPath.mono {edge : σ → σ → Prop} {m : ℕ} {p : ℕ → σ} (hp : IsPath edge n p) (h : m ≤ n) :
    IsPath edge m p :=
  fun t ht => hp t (ht.trans_le h)

/-- The predecessors recorded at each step, followed back from `s` at time `n`.
Times beyond `n` are parked at `s`. -/
def traceback (pred : ℕ → σ → σ) : ℕ → σ → ℕ → σ
  | 0, s => fun _ => s
  | n + 1, s => fun t => if t = n + 1 then s else traceback pred n (pred n s) t

@[simp] theorem traceback_self (pred : ℕ → σ → σ) (n : ℕ) (s : σ) : traceback pred n s n = s := by
  cases n <;> simp [traceback]

theorem traceback_succ_of_le (pred : ℕ → σ → σ) (s : σ) (h : t ≤ n) :
    traceback pred (n + 1) s t = traceback pred n (pred n s) t := by
  have hne : t ≠ n + 1 := by omega
  simp [traceback, hne]

/-- One step back along the recorded predecessors. -/
theorem traceback_pred (pred : ℕ → σ → σ) (s : σ) (h : t < n) :
    traceback pred n s t = pred t (traceback pred n s (t + 1)) := by
  induction n generalizing s with
  | zero => omega
  | succ n ih =>
    rw [traceback_succ_of_le pred s (by omega)]
    by_cases ht : t = n
    · subst t
      simp
    · rw [ih (pred n s) (by omega), traceback_succ_of_le pred s (by omega)]

section Order

variable [AddCommMonoid M]

/-- Total branch cost of the first `n` steps of a path. -/
def pathCost (cost : ℕ → σ → σ → M) (n : ℕ) (p : ℕ → σ) : M :=
  ∑ t ∈ Finset.range n, cost t (p t) (p (t + 1))

@[simp] theorem pathCost_zero (cost : ℕ → σ → σ → M) (p : ℕ → σ) : pathCost cost 0 p = 0 := by
  simp [pathCost]

/-- The cost of a path one step longer. -/
theorem pathCost_succ (cost : ℕ → σ → σ → M) (n : ℕ) (p : ℕ → σ) :
    pathCost cost (n + 1) p = pathCost cost n p + cost n (p n) (p (n + 1)) := by
  simp [pathCost, Finset.sum_range_succ]

variable {n : ℕ}

/-- The cost depends only on the states visited up to time `n`. -/
theorem pathCost_congr (cost : ℕ → σ → σ → M) {p q : ℕ → σ} (h : ∀ t, t ≤ n → p t = q t) :
    pathCost cost n p = pathCost cost n q := by
  refine Finset.sum_congr rfl fun t ht => ?_
  have ht' := Finset.mem_range.mp ht
  rw [h t (by omega), h (t + 1) (by omega)]

variable [LinearOrder M]

/-- No edge into a state improves on the metric the step keeps for it. -/
def Relaxed (edge : σ → σ → Prop) (cost : σ → σ → M) (prev next : σ → M) : Prop :=
  ∀ r s, edge r s → next s ≤ prev r + cost r s

/-- A metric below the cap is the recorded predecessor's plus the branch. -/
def Traced (cap : M) (edge : σ → σ → Prop) (cost : σ → σ → M) (prev next : σ → M)
    (pred : σ → σ) : Prop :=
  ∀ s, next s < cap → edge (pred s) s ∧ next s = prev (pred s) + cost (pred s) s

variable {edge : σ → σ → Prop}

/-- A step that keeps no more than either of two predecessors offers is relaxed. -/
theorem relaxed_of_select {cost : σ → σ → M} {prev next : σ → M} {low high : σ → σ}
    (hedge : ∀ r s, edge r s → r = low s ∨ r = high s)
    (hlow : ∀ s, next s ≤ prev (low s) + cost (low s) s)
    (hhigh : ∀ s, next s ≤ prev (high s) + cost (high s) s) : Relaxed edge cost prev next := by
  intro r s h
  rcases hedge r s h with rfl | rfl
  · exact hlow s
  · exact hhigh s

/-- A step that records which of two predecessors it kept is traced. -/
theorem traced_of_select {cap : M} {cost : σ → σ → M} {prev next : σ → M} {pred low high : σ → σ}
    (hedge : ∀ s, edge (low s) s ∧ edge (high s) s) (h : ∀ s, next s < cap →
      (pred s = low s ∧ next s = prev (low s) + cost (low s) s) ∨
      (pred s = high s ∧ next s = prev (high s) + cost (high s) s)) :
    Traced cap edge cost prev next pred := by
  intro s hs
  rcases h s hs with ⟨hp, hm⟩ | ⟨hp, hm⟩
  · exact ⟨hp ▸ (hedge s).1, hp ▸ hm⟩
  · exact ⟨hp ▸ (hedge s).2, hp ▸ hm⟩

variable [IsOrderedAddMonoid M]

variable {metric : ℕ → σ → M} {cost : ℕ → σ → σ → M}

/-- No path costs less than the metric of its end. -/
theorem metric_le_pathCost (hr : ∀ t, t < n → Relaxed edge (cost t) (metric t) (metric (t + 1)))
    {p : ℕ → σ} (hp : IsPath edge n p) : metric n (p n) ≤ metric 0 (p 0) + pathCost cost n p := by
  induction n with
  | zero => simp
  | succ n ih =>
    have hprev := ih (fun t ht => hr t (by omega)) (hp.mono (by omega))
    calc metric (n + 1) (p (n + 1))
        ≤ metric n (p n) + cost n (p n) (p (n + 1)) :=
          hr n (by omega) _ _ (hp n (by omega))
      _ ≤ metric 0 (p 0) + pathCost cost n p + cost n (p n) (p (n + 1)) :=
          add_le_add hprev le_rfl
      _ = metric 0 (p 0) + pathCost cost (n + 1) p := by rw [pathCost_succ, add_assoc]

/-- What is traced back is a path that costs its end's metric. -/
theorem traceback_spec {cap : M} {pred : ℕ → σ → σ}
    (ht : ∀ t, t < n → Traced cap edge (cost t) (metric t) (metric (t + 1)) (pred t))
    (hc : ∀ t r s, 0 ≤ cost t r s) {s : σ} (hs : metric n s < cap) :
    IsPath edge n (traceback pred n s) ∧
      metric 0 (traceback pred n s 0) < cap ∧
      metric n s = metric 0 (traceback pred n s 0) + pathCost cost n (traceback pred n s) := by
  induction n generalizing s with
  | zero =>
    exact ⟨fun t h => absurd h (by omega), by simpa [traceback] using hs, by simp [traceback]⟩
  | succ n ih =>
    obtain ⟨hedge, hmetric⟩ := ht n (by omega) s hs
    have hbelow : metric n (pred n s) < cap :=
      lt_of_le_of_lt (by rw [hmetric]; exact le_add_of_nonneg_right (hc n _ _)) hs
    obtain ⟨hpath, hstart, hcost⟩ := ih (fun t h => ht t (by omega)) hbelow
    have hagree : ∀ t, t ≤ n → traceback pred (n + 1) s t = traceback pred n (pred n s) t :=
      fun t h => traceback_succ_of_le pred s h
    refine ⟨?_, by rw [hagree 0 (by omega)]; exact hstart, ?_⟩
    · intro t h
      rw [hagree t (by omega)]
      by_cases hlast : t = n
      · subst t
        simpa using hedge
      · rw [hagree (t + 1) (by omega)]
        exact hpath t (by omega)
    · rw [pathCost_succ, pathCost_congr cost hagree, hagree 0 (by omega), hagree n le_rfl,
        traceback_self, traceback_self, ← add_assoc, ← hcost]
      exact hmetric

/-- The costs of the paths of `n` steps into a state. -/
def pathCosts (edge : σ → σ → Prop) (cost : ℕ → σ → σ → M) (n : ℕ) (s : σ) : Set M :=
  {c | ∃ p, IsPath edge n p ∧ p n = s ∧ pathCost cost n p = c}

/-- The metric of a state is the least cost of the paths to it. -/
theorem isLeast_pathCosts {pred : ℕ → σ → σ} {cap : M}
    (hr : ∀ t, t < n → Relaxed edge (cost t) (metric t) (metric (t + 1)))
    (ht : ∀ t, t < n → Traced cap edge (cost t) (metric t) (metric (t + 1)) (pred t))
    (hc : ∀ t r s, 0 ≤ cost t r s) (hzero : ∀ s, metric 0 s = 0) {s : σ} (hs : metric n s < cap) :
    IsLeast (pathCosts edge cost n s) (metric n s) := by
  obtain ⟨hpath, -, hcost⟩ := traceback_spec ht hc hs
  rw [hzero, zero_add] at hcost
  refine ⟨⟨traceback pred n s, hpath, traceback_self pred n s, hcost.symm⟩, ?_⟩
  rintro c ⟨p, hp, rfl, rfl⟩
  have hle := metric_le_pathCost hr hp
  rwa [hzero, zero_add] at hle

end Order

/-!
# Runs of add-compare-select steps

A step takes the old metrics to a metric and a decision bit for each state. A
run of steps leaves its final metrics and one decision word per step. When every
state has two predecessors and each step keeps the smaller of their two sums,
and the metrics cannot outgrow the range in which the steps do so, the run is
relaxed and traced by the predecessors its words name.
-/

/-- Path metrics of `N` states. -/
abbrev Metrics (N : ℕ) := List.Vector ℕ N

/-- One step: metric and decision of every state, from the old metrics. -/
abbrev Cells (N : ℕ) := Metrics N → Fin N → ℕ × Bool

variable {N : ℕ}

/-- Metrics a step stores. -/
def Cells.metrics (cell : Cells N) (old : Metrics N) : Metrics N :=
  List.Vector.ofFn fun j => (cell old j).1

/-- Decision word a step stores, bit `j` for state `j`. -/
def Cells.word (cell : Cells N) (old : Metrics N) : ℕ := Nat.ofBits fun j : Fin N => (cell old j).2

/-- Metrics after the steps, from those of the first. -/
def metricsAfter (cells : List (Cells N)) (old : Metrics N) : Metrics N :=
  cells.foldl (fun old cell => cell.metrics old) old

/-- Decision words of the steps, from the metrics of the first. -/
def decisionWords : List (Cells N) → Metrics N → List ℕ
  | [], _ => []
  | cell :: cells, old => cell.word old :: decisionWords cells (cell.metrics old)

@[simp] theorem length_decisionWords (cells : List (Cells N)) (old : Metrics N) :
    (decisionWords cells old).length = cells.length := by
  induction cells generalizing old with
  | nil => rfl
  | cons cell cells ih => simp [decisionWords, ih]

/-- Metrics after the first `t` steps. -/
def metricsAt (cells : List (Cells N)) (old : Metrics N) (t : ℕ) : Metrics N :=
  metricsAfter (cells.take t) old

variable {cells : List (Cells N)}

/-- The metrics after one cell more. -/
theorem metricsAt_succ (ht : t < cells.length) (old : Metrics N) :
    metricsAt cells old (t + 1) = cells[t].metrics (metricsAt cells old t) := by
  rw [metricsAt, List.take_add_one, List.getElem?_eq_getElem ht, Option.toList_some,
    metricsAfter, List.foldl_append]
  rfl

/-- Decision word of step `t`. -/
def wordAt (cells : List (Cells N)) (old : Metrics N) (t : ℕ) : ℕ :=
  ((decisionWords cells old)[t]?).getD 0

theorem wordAt_eq (ht : t < cells.length) (old : Metrics N) :
    wordAt cells old t = cells[t].word (metricsAt cells old t) := by
  induction cells generalizing old t with
  | nil => simp at ht
  | cons cell cells ih =>
    cases t with
    | zero => rfl
    | succ t => exact ih (by simpa using ht) _

theorem testBit_wordAt (ht : t < cells.length) (old : Metrics N) (j : Fin N) :
    (wordAt cells old t).testBit j.val = (cells[t] (metricsAt cells old t) j).2 := by
  rw [wordAt_eq ht, Cells.word, Nat.testBit_ofBits_lt _ _ j.isLt]

variable (low high : Fin N → Fin N)

/-- Predecessor of a state under a decision word. -/
def predecessor (word : ℕ) (j : Fin N) : Fin N := if word.testBit j.val then high j else low j

/-- From metrics within the bound the step keeps the smaller of the two sums, and
the second when they are equal. -/
def Selects (cost : Fin N → Fin N → ℕ) (bound : ℕ) (cell : Cells N) : Prop :=
  ∀ old : Metrics N, (∀ j, old.get j ≤ bound) → ∀ j,
    let a := old.get (low j) + cost (low j) j
    let b := old.get (high j) + cost (high j) j
    cell old j = (if a ≥ b then b else a, decide (a ≥ b))

section Run

variable {low high} {cells : List (Cells N)} {cost : ℕ → Fin N → Fin N → ℕ} {growth : ℕ}
  (hsel : ∀ t (h : t < cells.length), Selects low high (cost t) (growth * t) cells[t])
  (hcost : ∀ t, t < cells.length → ∀ r s, cost t r s ≤ growth)

include hsel

variable {old : Metrics N} {t : ℕ}

theorem metricsAt_select (ht : t < cells.length)
    (hold : ∀ j, (metricsAt cells old t).get j ≤ growth * t) (j : Fin N) :
    let a := (metricsAt cells old t).get (low j) + cost t (low j) j
    let b := (metricsAt cells old t).get (high j) + cost t (high j) j
    (metricsAt cells old (t + 1)).get j = (if a ≥ b then b else a) ∧
      (wordAt cells old t).testBit j.val = decide (a ≥ b) := by
  have hcell := hsel t ht _ hold j
  rw [metricsAt_succ ht, testBit_wordAt ht, Cells.metrics, List.Vector.get_ofFn, hcell]
  exact ⟨rfl, rfl⟩

include hcost

/-- The metrics grow by a bounded amount in each step. -/
theorem metricsAt_le (hold : ∀ j, old.get j = 0) (ht : t ≤ cells.length) (j : Fin N) :
    (metricsAt cells old t).get j ≤ growth * t := by
  induction t generalizing j with
  | zero => exact (hold j).le
  | succ t ih =>
    obtain ⟨hmetric, -⟩ := metricsAt_select hsel (by omega) (fun k => ih (by omega) k) j
    have hlow := ih (by omega) (low j)
    have hb := hcost t (by omega) (low j) j
    rw [hmetric, Nat.mul_succ]
    split <;> omega

/-- A run of cells relaxes every branch. -/
theorem relaxed_run {edge : Fin N → Fin N → Prop} (hedge : ∀ r s, edge r s ↔ r = low s ∨ r = high s)
    (hold : ∀ j, old.get j = 0) (ht : t < cells.length) :
    Relaxed edge (cost t) (metricsAt cells old t).get (metricsAt cells old (t + 1)).get := by
  have hstep := fun j =>
    (metricsAt_select hsel ht (metricsAt_le hsel hcost hold ht.le) j).1
  refine relaxed_of_select (fun r j h => (hedge r j).mp h) (fun j => ?_) fun j => ?_
  all_goals
    rw [hstep j]
    split <;> omega

/-- A run of cells traces every survivor. -/
theorem traced_run {edge : Fin N → Fin N → Prop} (hedge : ∀ r s, edge r s ↔ r = low s ∨ r = high s)
    (cap : ℕ) (hold : ∀ j, old.get j = 0) (ht : t < cells.length) :
    Traced cap edge (cost t) (metricsAt cells old t).get (metricsAt cells old (t + 1)).get
      (predecessor low high (wordAt cells old t)) := by
  refine traced_of_select
    (fun j => ⟨(hedge _ _).mpr (Or.inl rfl), (hedge _ _).mpr (Or.inr rfl)⟩) fun j _ => ?_
  obtain ⟨hmetric, hbit⟩ :=
    metricsAt_select hsel ht (metricsAt_le hsel hcost hold ht.le) j
  simp only [predecessor, hbit, hmetric, decide_eq_true_eq]
  split
  · exact Or.inr ⟨rfl, rfl⟩
  · exact Or.inl ⟨rfl, rfl⟩

end Run

end DsdNeo.Trellis
