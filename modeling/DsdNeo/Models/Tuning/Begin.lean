import DsdNeo.Models.Tuning.Outcome

/-!
# A tuning request begun

A begin opens a record for a fresh id: in a free slot, over the oldest request that is
over, or else over the oldest failure, whose gate it then keeps. When all 64 requests
are in flight it opens none.
-/

namespace DsdNeo.Tuning

open Machine

variable {m m' : Machine}

theorem oldestIn_state {records : Fin 64 → Record} {st : RequestState} {i : Fin 64}
    (h : oldestIn records st = some i) : (records i).state = st := by
  have key : ∀ (is : List (Fin 64)) (oldest : Option (Fin 64)),
      (∀ j, oldest = some j → (records j).state = st) → ∀ i,
      is.foldl (fun oldest i =>
        if (records i).state = st ∧
          oldest.all (fun j => (records i).requestId < (records j).requestId) then some i
        else oldest) oldest = some i → (records i).state = st := by
    intro is
    induction is with
    | nil => exact fun oldest ho i hi => ho i hi
    | cons k is ih =>
      intro oldest ho i hi
      refine ih _ ?_ i hi
      intro j hj
      dsimp only at hj
      split at hj
      · next hk =>
        cases hj
        exact hk.1
      · exact ho j hj
  exact key _ none (fun j hj => nomatch hj) i h

theorem requestSlot_state {records : Fin 64 → Record} {i : Fin 64} {inherited : Bool}
    (h : requestSlot records = some (i, inherited)) :
    if inherited then (records i).state = .failedGated
    else (records i).state = .free ∨ (records i).state = .finished := by
  unfold requestSlot at h
  cases hfree : (List.finRange 64).find? (fun i => (records i).state = .free) with
  | some j =>
    rw [hfree, Option.some.injEq, Prod.mk.injEq] at h
    obtain ⟨rfl, rfl⟩ := h
    rw [if_neg (by decide)]
    have hst := List.find?_some hfree
    exact .inl (of_decide_eq_true hst)
  | none =>
    simp only [hfree] at h
    cases hfin : oldestIn records .finished with
    | some j =>
      rw [hfin, Option.some.injEq, Prod.mk.injEq] at h
      obtain ⟨rfl, rfl⟩ := h
      rw [if_neg (by decide)]
      exact .inr (oldestIn_state hfin)
    | none =>
      simp only [hfin, Option.map_eq_some_iff, Prod.mk.injEq] at h
      obtain ⟨j, hj, rfl, rfl⟩ := h
      rw [if_pos rfl]
      exact oldestIn_state hj

/-- A request as a begin records it. -/
def Record.opened (requestId : ℕ) (inherited : Bool) : Record :=
  ⟨requestId, 0, .pending, .pending, inherited, false, false, false⟩

/-- What a begin does to the records: nothing, or a fresh request in a slot not pending. -/
def Opens (records records' : Fin 64 → Record) (requestId : ℕ) : Prop :=
  records' = records ∨ ∃ i inherited,
    records' = Function.update records i (.opened requestId inherited) ∧
      if inherited then (records i).state = .failedGated
      else (records i).state = .free ∨ (records i).state = .finished

theorem Machine.Good.raise (h : m.Good) :
    (m.store fun x => { x with nextRequest := m.now.nextRequest + 1 }).Good := by
  have htimed : (m.store fun x => { x with nextRequest := m.now.nextRequest + 1 }).Timed :=
    h.timed.store ⟨h.timed.now_covered.gate, h.timed.now_covered.generation⟩ (le_refl _)
  exact
    { count := h.count
      ids := fun i hi => ⟨(h.ids i hi).1, (h.ids i hi).2.trans (Nat.le_succ _)⟩
      distinct := h.distinct
      returned_le := fun id hid => (h.returned_le id hid).trans (Nat.le_succ _)
      failed := h.failed
      ended := h.ended
      committed_le := fun id hid => (h.committed_le id hid).trans (Nat.le_succ _)
      nodup := h.nodup
      budget := h.budget.trans (Nat.le_succ _)
      covered := htimed.covered
      growing := htimed.growing }

theorem Machine.Timed.opened {i : Fin 64} {requestId : ℕ} {inherited : Bool} (h : m.Timed)
    (hcount : m.now.unresolvedCount = number Record.Unresolved m.now.records)
    (hfresh : requestId ∉ m.now.returned)
    (hslot : if inherited then (m.now.records i).state = .failedGated
      else (m.now.records i).state = .free ∨ (m.now.records i).state = .finished) :
    let w := m.write i (.opened requestId inherited)
    let c := if inherited then w else w.addUnresolved 1
    (c.handOut requestId).Timed ∧
      (c.handOut requestId).now.unresolvedCount =
        number Record.Unresolved (c.handOut requestId).now.records := by
  intro w c
  have hnew : (Record.opened requestId inherited).Unresolved := .inl rfl
  have hnumber := number_update Record.Unresolved m.now.records i (.opened requestId inherited)
  rw [if_pos hnew] at hnumber
  have hopen := number_update (Record.Open m.now.returned) m.now.records i
    (.opened requestId inherited)
  have hnotOpen : ¬ Record.Open m.now.returned (Record.opened requestId inherited) :=
    fun ho => hfresh ho.2
  rw [if_neg hnotOpen] at hopen
  have hw : w.Timed := by
    refine h.store ⟨?_, h.now_covered.generation⟩ (le_refl _)
    have hgate := h.now_covered.gate
    simp only
    omega
  have hwrecords : w.now.records = Function.update m.now.records i (.opened requestId inherited) :=
    rfl
  have hwcount : w.now.unresolvedCount = m.now.unresolvedCount := rfl
  have hc : c.Timed ∧ c.now.unresolvedCount = number Record.Unresolved c.now.records ∧
      c.now.records = w.now.records := by
    cases inherited with
    | true =>
      simp only [if_true] at hslot
      rw [if_pos (show (m.now.records i).Unresolved from .inr hslot)] at hnumber
      refine ⟨hw, ?_, rfl⟩
      change w.now.unresolvedCount = number Record.Unresolved w.now.records
      rw [hwcount, hwrecords, hcount]
      omega
    | false =>
      have hold : ¬ (m.now.records i).Unresolved := by
        rintro (hu | hu) <;> rcases hslot with hs | hs <;> rw [hu] at hs <;> cases hs
      rw [if_neg hold] at hnumber
      have heq : (w.addUnresolved 1).now.unresolvedCount =
          number Record.Unresolved (w.addUnresolved 1).now.records := by
        change w.now.unresolvedCount + 1 = number Record.Unresolved w.now.records
        rw [hwcount, hwrecords, hcount]
        omega
      have hcov : (w.addUnresolved 1).now.Covered :=
        covered_of_unresolved heq.ge hw.now_covered.generation
      exact ⟨hw.store (f := fun x => { x with unresolvedCount := x.unresolvedCount + 1 }) hcov
        (le_refl _), heq, rfl⟩
  obtain ⟨hct, hceq, -⟩ := hc
  have hlast : (c.handOut requestId).now.Covered :=
    covered_of_unresolved hceq.ge hct.now_covered.generation
  exact ⟨hct.store (f := fun x => { x with returned := x.returned ++ [requestId] }) hlast
    (le_refl _), hceq⟩

/-- A begin that found a slot: its fresh request there, and handed out. -/
structure Machine.Opened (m m' : Machine) (i : Fin 64) (inherited : Bool) : Prop where
  records : m'.now.records =
    Function.update m.now.records i (.opened (m.now.nextRequest + 1) inherited)
  nextRequest : m'.now.nextRequest = m.now.nextRequest + 1
  committed : m'.now.committed = m.now.committed
  returned : m'.now.returned = m.now.returned ++ [m.now.nextRequest + 1]

section Opened

variable {i j k : Fin 64} {inherited : Bool}

theorem Machine.Opened.self (ho : m.Opened m' i inherited) :
    m'.now.records i = .opened (m.now.nextRequest + 1) inherited := by
  rw [ho.records, Function.update_self]

theorem Machine.Opened.other (ho : m.Opened m' i inherited) (hji : j ≠ i) :
    m'.now.records j = m.now.records j := by
  rw [ho.records, Function.update_of_ne hji]

theorem Machine.Opened.ids (ho : m.Opened m' i inherited) (h : m.Good)
    (hj : (m'.now.records j).state ≠ .free) :
    0 < (m'.now.records j).requestId ∧ (m'.now.records j).requestId ≤ m'.now.nextRequest := by
  rw [ho.nextRequest]
  by_cases hji : j = i
  · rw [hji, ho.self]
    exact ⟨Nat.succ_pos _, le_refl _⟩
  · rw [ho.other hji] at hj ⊢
    exact ⟨(h.ids j hj).1, (h.ids j hj).2.trans (Nat.le_succ _)⟩

/-- No request had the fresh id. -/
theorem Machine.Opened.fresh (ho : m.Opened m' i inherited) (h : m.Good) (hji : j ≠ i)
    (hj : (m'.now.records j).state ≠ .free) :
    (m'.now.records j).requestId ≠ (m'.now.records i).requestId := by
  rw [ho.other hji] at hj ⊢
  rw [ho.self]
  exact ((h.ids j hj).2.trans_lt (Nat.lt_succ_self _)).ne

theorem Machine.Opened.distinct (ho : m.Opened m' i inherited) (h : m.Good)
    (hj : (m'.now.records j).state ≠ .free) (hk : (m'.now.records k).state ≠ .free)
    (hjk : (m'.now.records j).requestId = (m'.now.records k).requestId) : j = k := by
  by_cases hji : j = i
  · by_cases hki : k = i
    · rw [hji, hki]
    · exact absurd (hji ▸ hjk).symm (ho.fresh h hki hk)
  · by_cases hki : k = i
    · exact absurd (hki ▸ hjk) (ho.fresh h hji hj)
    · rw [ho.other hji] at hj hjk
      rw [ho.other hki] at hk hjk
      exact h.distinct j k hj hk hjk

theorem Machine.Opened.ended (ho : m.Opened m' i inherited) (h : m.Good)
    (hj : (m'.now.records j).state ≠ .free) :
    (m'.now.records j).requestId ∈ m'.now.committed ↔ (m'.now.records j).BothCommitted := by
  rw [ho.committed]
  by_cases hji : j = i
  · rw [hji, ho.self]
    refine iff_of_false ?_ (not_bothCommitted_of_unresolved (.inl rfl))
    intro hmem
    exact Nat.not_succ_le_self _ (h.committed_le _ hmem)
  · rw [ho.other hji] at hj ⊢
    exact h.ended j hj

/-- A fresh request opened keeps the machine good. -/
theorem Machine.Opened.good (ho : m.Opened m' i inherited) (h : m.Good) (htimed : m'.Timed)
    (hcount : m'.now.unresolvedCount = number Record.Unresolved m'.now.records)
    (hnotPending : ¬ (m.now.records i).Pending) : m'.Good := by
  refine
    { count := hcount, ids := fun j hj => ho.ids h hj
      distinct := fun j k hj hk hjk => ho.distinct h hj hk hjk, returned_le := ?_, failed := ?_
      ended := fun j hj => ho.ended h hj, committed_le := ?_, nodup := ho.committed ▸ h.nodup
      budget := ?_, covered := htimed.covered, growing := htimed.growing }
  · intro id hmem
    rw [ho.returned] at hmem
    rw [ho.nextRequest]
    rcases List.mem_append.mp hmem with hmem | hmem
    · exact (h.returned_le id hmem).trans (Nat.le_succ _)
    · exact (List.mem_singleton.mp hmem).le
  · intro j hj
    by_cases hji : j = i
    · rw [hji, ho.self] at hj
      cases hj
    · rw [ho.other hji] at hj ⊢
      exact h.failed j hj
  · intro id hmem
    rw [ho.committed] at hmem
    rw [ho.nextRequest]
    exact (h.committed_le id hmem).trans (Nat.le_succ _)
  · have hpend := number_update Record.Pending m.now.records i
      (.opened (m.now.nextRequest + 1) inherited)
    rw [if_neg hnotPending,
      if_pos (show (Record.opened (m.now.nextRequest + 1) inherited).Pending from rfl)] at hpend
    have hbudget := h.budget
    rw [ho.records, ho.committed, ho.nextRequest]
    omega

end Opened

theorem begin_spec (h : m.Good) (hnext : m.now.nextRequest + 1 < 2 ^ 64) :
    (requestBegin m).2.Good ∧
      (requestBegin m).2.now.nextRequest = m.now.nextRequest + 1 ∧
      (requestBegin m).2.now.committed = m.now.committed ∧
      Opens m.now.records (requestBegin m).2.now.records (m.now.nextRequest + 1) := by
  have hid : takeId m.now.nextRequest = m.now.nextRequest + 1 := by
    unfold takeId
    rw [Nat.mod_eq_of_lt hnext, if_neg (Nat.succ_ne_zero _)]
  have hraise := h.raise
  unfold requestBegin
  simp only [hid]
  generalize hm₁ : m.store (fun x => { x with nextRequest := m.now.nextRequest + 1 }) = m₁
  rw [hm₁] at hraise
  have hrecords : m₁.now.records = m.now.records := by rw [← hm₁]; rfl
  have hcommitted : m₁.now.committed = m.now.committed := by rw [← hm₁]; rfl
  have hreturned : m₁.now.returned = m.now.returned := by rw [← hm₁]; rfl
  have hnext₁ : m₁.now.nextRequest = m.now.nextRequest + 1 := by rw [← hm₁]; rfl
  cases hslot : requestSlot m₁.now.records with
  | none =>
    rw [← hrecords]
    exact ⟨hraise, hnext₁, hcommitted, .inl rfl⟩
  | some slot =>
    obtain ⟨i, inherited⟩ := slot
    have hstate := requestSlot_state hslot
    have hfresh : m.now.nextRequest + 1 ∉ m₁.now.returned := by
      rw [hreturned]
      intro hmem
      exact Nat.not_succ_le_self _ (h.returned_le _ hmem)
    obtain ⟨htimed, hcount⟩ := hraise.timed.opened (i := i) hraise.count hfresh hstate
    dsimp only at htimed hcount ⊢
    rw [show (⟨m.now.nextRequest + 1, 0, .pending, .pending, inherited, false, false, false⟩ :
      Record) = .opened (m.now.nextRequest + 1) inherited from rfl]
    generalize hm₂ : (if inherited = true then
        m₁.write i (.opened (m.now.nextRequest + 1) inherited)
      else (m₁.write i (.opened (m.now.nextRequest + 1) inherited)).addUnresolved 1).handOut
        (m.now.nextRequest + 1) = m₂
    rw [hm₂] at htimed hcount
    have hopened : m.Opened m₂ i inherited := by
      rw [← hm₂]
      cases inherited with
      | true =>
        constructor <;> simp only [if_true, handOut, write, store,
          hrecords, hnext₁, hcommitted, hreturned]
      | false =>
        constructor <;> simp only [Bool.false_eq_true, if_false, handOut,
          addUnresolved, write, store, hrecords, hnext₁, hcommitted,
          hreturned]
    rw [hrecords] at hstate
    have hnotPending : ¬ (m.now.records i).Pending := by
      intro hp
      rw [show (m.now.records i).state = .pending from hp] at hstate
      cases inherited <;> simp at hstate
    exact ⟨hopened.good h htimed hcount hnotPending, hopened.nextRequest, hopened.committed,
      .inr ⟨i, inherited, hopened.records, hstate⟩⟩

end DsdNeo.Tuning
