import DsdNeo.Core.Trellis.Survivor

/-!
# Steps that scan every predecessor

A decoder of a dense trellis offers each state the metric of every predecessor in
turn and keeps the first of the least offers. A scan below a ceiling is relaxed
and traced whatever the order of the predecessors, so that the run of such steps
leaves, for each state below the ceiling, the least cost of a path into it and a
chain of predecessors that attains it.
-/

namespace DsdNeo.Trellis

open List

section Scan

variable {σ M : Type*} [LinearOrder M]

/-- The held offer after each of the others in turn, a later one only where it is less. -/
def scan (offer : σ → M) (held : M × σ) (rs : List σ) : M × σ :=
  rs.foldl (fun held r => if offer r < held.1 then (offer r, r) else held) held

theorem scan_cons (offer : σ → M) (held : M × σ) (r : σ) (rs : List σ) :
    scan offer held (r :: rs) =
      scan offer (if offer r < held.1 then (offer r, r) else held) rs := rfl

theorem scan_le_held (offer : σ → M) (held : M × σ) (rs : List σ) :
    (scan offer held rs).1 ≤ held.1 := by
  induction rs generalizing held with
  | nil => exact le_rfl
  | cons r rs ih =>
    rw [scan_cons]
    refine (ih _).trans ?_
    split
    · next hlt => exact hlt.le
    · exact le_rfl

/-- Nothing scanned is less than what is kept. -/
theorem scan_le (offer : σ → M) (held : M × σ) {rs : List σ} {r : σ} (hr : r ∈ rs) :
    (scan offer held rs).1 ≤ offer r := by
  induction rs generalizing held with
  | nil => cases hr
  | cons r' rs ih =>
    rw [scan_cons]
    rcases mem_cons.mp hr with rfl | hmem
    · refine (scan_le_held _ _ _).trans ?_
      split
      · exact le_rfl
      · next hlt => exact not_lt.mp hlt
    · exact ih _ hmem

/-- What is kept was held before, or is the offer of the one it names. -/
theorem scan_attained (offer : σ → M) (held : M × σ) (rs : List σ) :
    scan offer held rs = held ∨
      (scan offer held rs).2 ∈ rs ∧ (scan offer held rs).1 = offer (scan offer held rs).2 := by
  induction rs generalizing held with
  | nil => exact Or.inl rfl
  | cons r rs ih =>
    rw [scan_cons]
    rcases ih (if offer r < held.1 then (offer r, r) else held) with hkept | ⟨hmem, heq⟩
    · rw [hkept]
      split
      · exact Or.inr ⟨mem_cons_self, rfl⟩
      · exact Or.inl rfl
    · exact Or.inr ⟨mem_cons_of_mem r hmem, heq⟩

end Scan

variable {N : ℕ}

/-- One step: metric and predecessor of every state, from the old metrics. -/
abbrev Sweep (N : ℕ) := Metrics N → List.Vector (ℕ × Fin N) N

/-- Metrics of the states and the predecessors recorded at each step. -/
structure Survivors (N : ℕ) where
  metric : Metrics N
  back : ℕ → Fin N → Fin N

/-- Step `t` of a run. -/
def Survivors.step (sweep : ℕ → Sweep N) (t : ℕ) (v : Survivors N) : Survivors N :=
  let row := sweep t v.metric
  ⟨row.map Prod.fst, Function.update v.back t fun s => (row.get s).2⟩

/-- The first `n` steps of a run. -/
def Survivors.run (sweep : ℕ → Sweep N) (v : Survivors N) : ℕ → Survivors N
  | 0 => v
  | n + 1 => (Survivors.run sweep v n).step sweep n

namespace Survivors

variable (sweep : ℕ → Sweep N) (v : Survivors N)

@[simp] theorem run_zero : v.run sweep 0 = v := rfl

theorem get_metric_run_succ (t : ℕ) (s : Fin N) :
    (v.run sweep (t + 1)).metric.get s = ((sweep t (v.run sweep t).metric).get s).1 :=
  List.Vector.get_map _ _ _

/-- A later step leaves the predecessors of an earlier one. -/
theorem back_run {t n : ℕ} (h : t < n) (s : Fin N) :
    (v.run sweep n).back t s = ((sweep t (v.run sweep t).metric).get s).2 := by
  induction n with
  | zero => omega
  | succ n ih =>
    simp only [run, step]
    by_cases ht : t = n
    · subst t
      rw [Function.update_self]
    · rw [Function.update_of_ne ht]
      exact ih (by omega)

end Survivors

/-- From these metrics, the step keeps of all states the first of the least offers below
the ceiling. -/
def Scans (cost : Fin N → Fin N → ℕ) (ceiling : ℕ) (sweep : Sweep N) (old : Metrics N) : Prop :=
  ∀ s, ∃ held, (sweep old).get s =
    scan (fun r => old.get r + cost r s) (ceiling, held) (List.finRange N)

section Run

variable {sweep : ℕ → Sweep N} {cost : ℕ → Fin N → Fin N → ℕ} {ceiling n : ℕ} {v : Survivors N}
  (hscan : ∀ t, t < n → Scans (cost t) ceiling (sweep t) (v.run sweep t).metric)

include hscan

/-- No predecessor offers less than a scan keeps. -/
theorem relaxed_scans {t : ℕ} (ht : t < n) :
    Relaxed (fun _ _ => True) (cost t) (v.run sweep t).metric.get
      (v.run sweep (t + 1)).metric.get := by
  intro r s _
  obtain ⟨held, heq⟩ := hscan t ht s
  rw [Survivors.get_metric_run_succ, heq]
  exact scan_le _ _ (mem_finRange r)

theorem traced_scans {t : ℕ} (ht : t < n) :
    Traced ceiling (fun _ _ => True) (cost t) (v.run sweep t).metric.get
      (v.run sweep (t + 1)).metric.get ((v.run sweep n).back t) := by
  intro s hs
  obtain ⟨held, heq⟩ := hscan t ht s
  rw [Survivors.get_metric_run_succ] at hs ⊢
  rw [Survivors.back_run _ _ ht]
  rw [heq] at hs ⊢
  refine ⟨trivial, ?_⟩
  rcases scan_attained (fun r => (v.run sweep t).metric.get r + cost t r s) (ceiling, held)
    (List.finRange N) with hkept | ⟨-, hoffer⟩
  · rw [hkept] at hs
    exact absurd hs (lt_irrefl _)
  · exact hoffer

theorem metric_run_le_pathCost (p : ℕ → Fin N) :
    (v.run sweep n).metric.get (p n) ≤ v.metric.get (p 0) + pathCost cost n p :=
  metric_le_pathCost (fun t ht => relaxed_scans (t := t) hscan ht) (fun _ _ => trivial)

theorem traceback_scans {s : Fin N} (hs : (v.run sweep n).metric.get s < ceiling) :
    v.metric.get (traceback (v.run sweep n).back n s 0) < ceiling ∧
      (v.run sweep n).metric.get s =
        v.metric.get (traceback (v.run sweep n).back n s 0) +
          pathCost cost n (traceback (v.run sweep n).back n s) := by
  obtain ⟨-, hstart, hattained⟩ := traceback_spec
    (fun t ht => traced_scans (t := t) hscan ht) (fun _ _ _ => Nat.zero_le _) hs
  exact ⟨hstart, hattained⟩

end Run

/-- A predecessor's offers to each of the states, taken where they are less. -/
def offerAll (offer : Fin N → ℕ) (r : Fin N) (ns : List (Fin N))
    (curr : List.Vector (ℕ × Fin N) N) : List.Vector (ℕ × Fin N) N :=
  ns.foldl (fun curr s => if offer s < (curr.get s).1 then curr.set s (offer s, r) else curr) curr

theorem get_offerAll (offer : Fin N → ℕ) (r : Fin N) {ns : List (Fin N)} (hn : ns.Nodup)
    (curr : List.Vector (ℕ × Fin N) N) (s : Fin N) :
    (offerAll offer r ns curr).get s =
      if s ∈ ns ∧ offer s < (curr.get s).1 then (offer s, r) else curr.get s := by
  induction ns generalizing curr with
  | nil => simp [offerAll]
  | cons s' ns ih =>
    obtain ⟨hnot, hn⟩ := nodup_cons.mp hn
    rw [offerAll, foldl_cons, ← offerAll, ih hn]
    by_cases hs : s = s'
    · subst s'
      simp only [hnot, false_and, ite_false, mem_cons, true_or, true_and]
      split
      · exact List.Vector.get_set_same _ _ _
      · rfl
    · have hkept :
          (if offer s' < (curr.get s').1 then curr.set s' (offer s', r) else curr).get s =
            curr.get s := by
        split
        · exact List.Vector.get_set_of_ne (Ne.symm hs) _
        · rfl
      simp only [hkept, mem_cons, hs, false_or]

theorem eq_of_pathCost_zero {σ : Type*} {cost : ℕ → σ → σ → ℕ} {p q : ℕ → σ} {n : ℕ}
    (hfree : ∀ t, t < n → ∀ s, cost t (q t) s = 0 → s = q (t + 1)) (hstart : p 0 = q 0)
    (hzero : pathCost cost n p = 0) : ∀ t, t ≤ n → p t = q t := by
  intro t ht
  induction t with
  | zero => exact hstart
  | succ t ih =>
    have hterm : cost t (p t) (p (t + 1)) = 0 := Finset.sum_eq_zero_iff.mp hzero t
      (Finset.mem_range.mpr (by omega))
    rw [ih (by omega)] at hterm
    exact hfree t (by omega) _ hterm

/-- The loop that stores the states from the last step to the first. -/
def statesBack (back : ℕ → Fin N → Fin N) : ℕ → Fin N → List (Fin N) → List (Fin N)
  | 0, _, states => states
  | t + 1, s, states => statesBack back t (back t s) (s :: states)

/-- It stores the states after each step of the path traced back. -/
theorem statesBack_eq (back : ℕ → Fin N → Fin N) (n : ℕ) (s : Fin N) (states : List (Fin N)) :
    statesBack back n s states =
      ((List.range n).map fun t => traceback back n s (t + 1)) ++ states := by
  induction n generalizing s states with
  | zero => rfl
  | succ n ih =>
    rw [statesBack, ih, range_succ, map_append, append_assoc, map_singleton,
      traceback_self, singleton_append]
    congr 1
    refine map_congr_left fun t ht => ?_
    rw [traceback_succ_of_le back s (by have := mem_range.mp ht; omega)]

end DsdNeo.Trellis
