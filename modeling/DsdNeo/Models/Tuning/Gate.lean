import DsdNeo.Models.Tuning.Request
import Mathlib.Algebra.Order.BigOperators.Group.Finset
import Mathlib.Data.Fintype.BigOperators
import Mathlib.Tactic.Ring

/-!
# The counter and the generation of the tuning requests

Between calls the unresolved count is the number of unresolved records, and the
generation has advanced once for each request that ended with both sides committed.
At the instants inside a call the count is never below the number of unresolved
records whose begin has returned, so a zero means that none is left.
-/

namespace DsdNeo.Tuning

open List Function

/-- How many records have a property. -/
def number (p : Record → Prop) [DecidablePred p] (records : Fin 64 → Record) : ℕ :=
  ∑ i, if p (records i) then 1 else 0

/-- One record changed changes the number of records by its share. -/
theorem number_update (p : Record → Prop) [DecidablePred p] (records : Fin 64 → Record)
    (i : Fin 64) (r : Record) :
    number p (update records i r) + (if p (records i) then 1 else 0) =
      number p records + (if p r then 1 else 0) := by
  have hrest : ∑ j ∈ Finset.univ.erase i, (if p (update records i r j) then 1 else 0) =
      ∑ j ∈ Finset.univ.erase i, (if p (records j) then 1 else 0) := by
    apply Finset.sum_congr rfl
    intro j hj
    rw [update_of_ne (Finset.ne_of_mem_erase hj)]
  have hnew := Finset.add_sum_erase Finset.univ
    (fun j => if p (update records i r j) then 1 else 0) (Finset.mem_univ i)
  have hold := Finset.add_sum_erase Finset.univ
    (fun j => if p (records j) then 1 else 0) (Finset.mem_univ i)
  simp only [update_self] at hnew
  unfold number
  omega

variable {records : Fin 64 → Record}

theorem number_mono {p q : Record → Prop} [DecidablePred p] [DecidablePred q]
    (h : ∀ i, p (records i) → q (records i)) : number p records ≤ number q records := by
  apply Finset.sum_le_sum
  intro i _
  by_cases hp : p (records i)
  · rw [if_pos hp, if_pos (h i hp)]
  · rw [if_neg hp]
    exact Nat.zero_le _

theorem number_eq_zero {p : Record → Prop} [DecidablePred p] (h : number p records = 0)
    (i : Fin 64) : ¬ p (records i) := by
  intro hp
  have := (Finset.sum_eq_zero_iff.mp h) i (Finset.mem_univ i)
  rw [if_pos hp] at this
  exact Nat.one_ne_zero this

variable {i : Fin 64}

theorem number_pos {p : Record → Prop} [DecidablePred p] (h : p (records i)) :
    number p records ≠ 0 := fun hz => number_eq_zero hz i h

/-- In flight or awaiting recovery. -/
def Record.Unresolved (r : Record) : Prop := r.state = .pending ∨ r.state = .failedGated

instance : DecidablePred Record.Unresolved := fun r =>
  inferInstanceAs (Decidable (r.state = .pending ∨ r.state = .failedGated))

/-- In flight. -/
def Record.Pending (r : Record) : Prop := r.state = .pending

instance : DecidablePred Record.Pending := fun r => inferInstanceAs (Decidable (r.state = .pending))

/-- Unresolved, and its begin has returned. -/
def Record.Open (returned : List ℕ) (r : Record) : Prop :=
  r.Unresolved ∧ r.requestId ∈ returned

instance (returned : List ℕ) : DecidablePred (Record.Open returned) := fun r =>
  inferInstanceAs (Decidable (r.Unresolved ∧ r.requestId ∈ returned))

/-- Both the backend and the owner committed, and the request is over. -/
def Record.BothCommitted (r : Record) : Prop :=
  r.state = .finished ∧ r.backendComplete = true ∧ r.ownerReady = true ∧ r.result = .ok

/-- What any instant shows. -/
structure Instant.Covered (x : Instant) : Prop where
  gate : (number (Record.Open x.returned) x.records : ℤ) ≤ x.unresolvedCount
  generation : x.generation = (1 + x.committed.length) % 2 ^ 64

/-- What the machine holds when the lock is free. -/
structure Machine.Good (m : Machine) : Prop where
  count : m.now.unresolvedCount = number Record.Unresolved m.now.records
  ids : ∀ i, (m.now.records i).state ≠ .free →
    0 < (m.now.records i).requestId ∧ (m.now.records i).requestId ≤ m.now.nextRequest
  distinct : ∀ i j, (m.now.records i).state ≠ .free → (m.now.records j).state ≠ .free →
    (m.now.records i).requestId = (m.now.records j).requestId → i = j
  returned_le : ∀ id ∈ m.now.returned, id ≤ m.now.nextRequest
  failed : ∀ i, (m.now.records i).state = .failedGated → (m.now.records i).result ≠ .ok
  ended : ∀ i, (m.now.records i).state ≠ .free →
    ((m.now.records i).requestId ∈ m.now.committed ↔ (m.now.records i).BothCommitted)
  committed_le : ∀ id ∈ m.now.committed, id ≤ m.now.nextRequest
  nodup : m.now.committed.Nodup
  budget : m.now.committed.length + number Record.Pending m.now.records ≤ m.now.nextRequest
  covered : ∀ x ∈ m.timeline, x.Covered
  growing : m.timeline.Pairwise fun later earlier =>
    earlier.committed.length ≤ later.committed.length

/-- What a call may do to the timeline. -/
structure Machine.Timed (m : Machine) : Prop where
  covered : ∀ x ∈ m.timeline, x.Covered
  growing : m.timeline.Pairwise fun later earlier =>
    earlier.committed.length ≤ later.committed.length

variable {m : Machine}

theorem Machine.Good.timed (h : m.Good) : m.Timed := ⟨h.covered, h.growing⟩

/-- A store keeps the timeline right when the new instant is. -/
theorem Machine.Timed.store (h : m.Timed) {f : Instant → Instant} (hx : (f m.now).Covered)
    (hle : m.now.committed.length ≤ (f m.now).committed.length) : (m.store f).Timed := by
  refine ⟨?_, ?_⟩
  · intro x hx'
    rcases mem_cons.mp hx' with rfl | hx'
    · exact hx
    · exact h.covered x hx'
  · refine pairwise_cons.mpr ⟨?_, h.growing⟩
    intro x hx'
    rcases mem_cons.mp hx' with rfl | hx'
    · exact hle
    · exact ((pairwise_cons.mp h.growing).1 x hx').trans hle

theorem Machine.Timed.now_covered (h : m.Timed) : m.now.Covered :=
  h.covered m.now mem_cons_self

/-- A count of all unresolved records covers the instant. -/
theorem covered_of_unresolved {x : Instant}
    (h : (number Record.Unresolved x.records : ℤ) ≤ x.unresolvedCount)
    (hg : x.generation = (1 + x.committed.length) % 2 ^ 64) : x.Covered := by
  have hle : number (Record.Open x.returned) x.records ≤ number Record.Unresolved x.records :=
    number_mono fun _ (ho : Record.Open x.returned _) => ho.1
  exact ⟨(Int.ofNat_le.mpr hle).trans h, hg⟩

variable {r : Record}

theorem not_bothCommitted_of_unresolved (h : r.Unresolved) : ¬ r.BothCommitted := by
  rintro ⟨hf, -⟩
  rcases h with h | h
  · rw [h] at hf
    cases hf
  · rw [h] at hf
    cases hf

theorem Record.Unresolved.ne_free (h : r.Unresolved) : r.state ≠ .free := by
  rcases h with h | h <;> rw [h] <;> decide

/-- A record that stands for the same request leaves the ids as they are. -/
theorem ids_update (hu : (m.now.records i).state ≠ .free)
    (hid : r.requestId = (m.now.records i).requestId) (j : Fin 64)
    (hj : (update m.now.records i r j).state ≠ .free) :
    (m.now.records j).state ≠ .free ∧
      (update m.now.records i r j).requestId = (m.now.records j).requestId := by
  by_cases hji : j = i
  · subst hji
    rw [update_self]
    exact ⟨hu, hid⟩
  · rw [update_of_ne hji] at hj ⊢
    exact ⟨hj, rfl⟩

theorem Machine.Good.rewrite (h : m.Good) (hu : (m.now.records i).Unresolved) (hu' : r.Unresolved)
    (hid : r.requestId = (m.now.records i).requestId)
    (hpend : r.Pending → (m.now.records i).Pending)
    (hfailed : r.state = .failedGated → r.result ≠ .ok) : (m.write i r).Good := by
  have hids := ids_update (m := m) (r := r) hu.ne_free hid
  have hcount : number Record.Unresolved (update m.now.records i r) =
      number Record.Unresolved m.now.records := by
    have := number_update Record.Unresolved m.now.records i r
    rw [if_pos hu, if_pos hu'] at this
    omega
  have htimed : (m.write i r).Timed := by
    refine h.timed.store (covered_of_unresolved ?_ h.timed.now_covered.generation) (le_refl _)
    simp only [hcount, h.count, le_refl]
  refine
    { count := by simpa only [Machine.write, Machine.store, hcount] using h.count
      ids := ?_, distinct := ?_, returned_le := h.returned_le, failed := ?_, ended := ?_
      committed_le := h.committed_le, nodup := h.nodup, budget := ?_
      covered := htimed.covered, growing := htimed.growing }
  · intro j hj
    obtain ⟨hfree, hsame⟩ := hids j hj
    simp only [Machine.write, Machine.store, hsame]
    exact h.ids j hfree
  · intro j k hj hk hjk
    obtain ⟨hfj, hsj⟩ := hids j hj
    obtain ⟨hfk, hsk⟩ := hids k hk
    simp only [Machine.write, Machine.store, hsj, hsk] at hjk
    exact h.distinct j k hfj hfk hjk
  · intro j hj
    simp only [Machine.write, Machine.store] at hj ⊢
    by_cases hji : j = i
    · subst hji
      rw [update_self] at hj ⊢
      exact hfailed hj
    · rw [update_of_ne hji] at hj ⊢
      exact h.failed j hj
  · intro j hj
    obtain ⟨hfj, hsj⟩ := hids j hj
    simp only [Machine.write, Machine.store, hsj]
    by_cases hji : j = i
    · subst hji
      rw [update_self, h.ended j hfj]
      exact iff_of_false (not_bothCommitted_of_unresolved hu)
        (not_bothCommitted_of_unresolved hu')
    · rw [update_of_ne hji]
      exact h.ended j hfj
  · have hle : number Record.Pending (update m.now.records i r) ≤
        number Record.Pending m.now.records := by
      have := number_update Record.Pending m.now.records i r
      by_cases hp : r.Pending
      · rw [if_pos hp, if_pos (hpend hp)] at this
        omega
      · rw [if_neg hp] at this
        omega
    exact (Nat.add_le_add_left hle _).trans h.budget

/-- The two stores that finish an unresolved record, seen from the instant before. -/
theorem Machine.Timed.resolve (h : m.Timed) (hu : (m.now.records i).Unresolved)
    (hcount : m.now.unresolvedCount = number Record.Unresolved m.now.records) :
    (m.resolve i).Timed ∧
      (m.resolve i).now.unresolvedCount = number Record.Unresolved (m.resolve i).now.records := by
  have hone := number_update Record.Unresolved m.now.records i
    ((m.now.records i).inState .finished)
  rw [if_pos hu, if_neg (by rintro (h | h) <;> cases h), Nat.add_zero] at hone
  have hwrite : (m.write i ((m.now.records i).inState .finished)).Timed := by
    refine h.store (covered_of_unresolved ?_ h.now_covered.generation) (le_refl _)
    simp only [hcount]
    omega
  have heq : (m.resolve i).now.unresolvedCount =
      number Record.Unresolved (m.resolve i).now.records := by
    simp only [Machine.resolve, Machine.addUnresolved, Machine.write, Machine.store, hcount]
    omega
  have hlast : (m.resolve i).now.Covered :=
    covered_of_unresolved heq.ge hwrite.now_covered.generation
  have hstore : (m.resolve i).Timed :=
    hwrite.store (f := fun x => { x with unresolvedCount := x.unresolvedCount + -1 }) hlast
      (le_refl _)
  exact ⟨hstore, heq⟩

theorem Machine.Good.resolve_ids (h : m.Good) (hu : (m.now.records i).Unresolved) :
    (∀ j, ((m.resolve i).now.records j).state ≠ .free →
      0 < ((m.resolve i).now.records j).requestId ∧
        ((m.resolve i).now.records j).requestId ≤ (m.resolve i).now.nextRequest) ∧
      (∀ j k, ((m.resolve i).now.records j).state ≠ .free →
        ((m.resolve i).now.records k).state ≠ .free →
        ((m.resolve i).now.records j).requestId = ((m.resolve i).now.records k).requestId →
        j = k) ∧
      ∀ j, ((m.resolve i).now.records j).state = .failedGated →
        ((m.resolve i).now.records j).result ≠ .ok := by
  have hids := ids_update (m := m) (r := (m.now.records i).inState .finished) hu.ne_free rfl
  simp only [Machine.resolve, Machine.addUnresolved, Machine.write, Machine.store]
  refine ⟨?_, ?_, ?_⟩
  · intro j hj
    obtain ⟨hfree, hsame⟩ := hids j hj
    rw [hsame]
    exact h.ids j hfree
  · intro j k hj hk hjk
    obtain ⟨hfj, hsj⟩ := hids j hj
    obtain ⟨hfk, hsk⟩ := hids k hk
    rw [hsj, hsk] at hjk
    exact h.distinct j k hfj hfk hjk
  · intro j hj
    by_cases hji : j = i
    · subst hji
      rw [update_self] at hj
      cases hj
    · rw [update_of_ne hji] at hj ⊢
      exact h.failed j hj

theorem number_pending_resolve (m : Machine) (i : Fin 64) :
    number Record.Pending (m.resolve i).now.records +
        (if (m.now.records i).Pending then 1 else 0) = number Record.Pending m.now.records := by
  have := number_update Record.Pending m.now.records i
    ((m.now.records i).inState .finished)
  rwa [if_neg (nofun : ¬ Record.Pending ((m.now.records i).inState .finished)),
    Nat.add_zero] at this

/-- A request that did not succeed is resolved. -/
theorem Machine.Good.resolve (h : m.Good) (hu : (m.now.records i).Unresolved)
    (hres : (m.now.records i).result ≠ .ok) : (m.resolve i).Good := by
  obtain ⟨htimed, hcount⟩ := h.timed.resolve hu h.count
  obtain ⟨hids, hdistinct, hfailed⟩ := h.resolve_ids hu
  refine
    { count := hcount, ids := hids, distinct := hdistinct, returned_le := h.returned_le
      failed := hfailed, ended := ?_, committed_le := h.committed_le, nodup := h.nodup
      budget := ?_, covered := htimed.covered, growing := htimed.growing }
  · intro j hj
    simp only [Machine.resolve, Machine.addUnresolved, Machine.write, Machine.store] at hj ⊢
    by_cases hji : j = i
    · subst hji
      rw [update_self]
      refine ((h.ended j hu.ne_free).trans (iff_of_false (not_bothCommitted_of_unresolved hu) ?_))
      rintro ⟨-, -, -, hok⟩
      exact hres hok
    · rw [update_of_ne hji] at hj ⊢
      exact h.ended j hj
  · have hpend := number_pending_resolve m i
    have hbudget := h.budget
    have hkeep : (m.resolve i).now.committed = m.now.committed := rfl
    have hnext : (m.resolve i).now.nextRequest = m.now.nextRequest := rfl
    rw [hkeep, hnext]
    omega

/-- A request both sides have completed succeeds. -/
theorem Machine.Good.succeed (h : m.Good) (hp : (m.now.records i).state = .pending)
    (hb : (m.now.records i).backendComplete = true) (ho : (m.now.records i).ownerReady = true)
    (hres : (m.now.records i).result = .ok) :
    ((m.generationAdvance (m.now.records i).requestId).resolve i).Good := by
  have hu : (m.now.records i).Unresolved := .inl hp
  obtain ⟨hpos, hle⟩ := h.ids i hu.ne_free
  have hfresh : (m.now.records i).requestId ∉ m.now.committed := fun hmem =>
    not_bothCommitted_of_unresolved hu ((h.ended i hu.ne_free).mp hmem)
  have hadvance : (m.generationAdvance (m.now.records i).requestId).Timed := by
    refine h.timed.store ⟨h.timed.now_covered.gate, ?_⟩ (by simp)
    simp only [length_append, length_singleton, h.timed.now_covered.generation, Nat.mod_add_mod]
    rw [Nat.add_assoc]
  obtain ⟨htimed, hcount⟩ := hadvance.resolve (i := i) hu h.count
  obtain ⟨hids, hdistinct, hfailed⟩ := h.resolve_ids hu
  refine
    { count := hcount, ids := hids, distinct := hdistinct, returned_le := h.returned_le
      failed := hfailed, ended := ?_, committed_le := ?_, nodup := ?_
      budget := ?_, covered := htimed.covered, growing := htimed.growing }
  · intro j hj
    simp only [Machine.resolve, Machine.addUnresolved, Machine.write, Machine.store,
      Machine.generationAdvance] at hj ⊢
    by_cases hji : j = i
    · subst hji
      rw [update_self]
      exact iff_of_true (by simp) ⟨rfl, hb, ho, hres⟩
    · rw [update_of_ne hji] at hj ⊢
      rw [← h.ended j hj, mem_append, mem_singleton]
      refine ⟨?_, .inl⟩
      rintro (hmem | hsame)
      · exact hmem
      · exact absurd (h.distinct j i hj hu.ne_free hsame) hji
  · intro id hid
    rcases mem_append.mp hid with hid | hid
    · exact h.committed_le id hid
    · rw [mem_singleton.mp hid]
      exact hle
  · refine nodup_append.mpr ⟨h.nodup, nodup_singleton _, ?_⟩
    rintro a ha b hb rfl
    exact hfresh (mem_singleton.mp hb ▸ ha)
  · have hpend := number_pending_resolve m i
    rw [if_pos (show (m.now.records i).Pending from hp)] at hpend
    have hbudget := h.budget
    have hlen : ((m.generationAdvance (m.now.records i).requestId).resolve i).now.committed.length =
        m.now.committed.length + 1 := by
      simp [Machine.resolve, Machine.addUnresolved, Machine.write, Machine.store,
        Machine.generationAdvance]
    have hnumber : number Record.Pending
        ((m.generationAdvance (m.now.records i).requestId).resolve i).now.records =
          number Record.Pending (m.resolve i).now.records := rfl
    have hnext : ((m.generationAdvance (m.now.records i).requestId).resolve i).now.nextRequest =
        m.now.nextRequest := rfl
    rw [hlen, hnumber, hnext]
    omega

end DsdNeo.Tuning
