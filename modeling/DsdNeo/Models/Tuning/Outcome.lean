import DsdNeo.Models.Tuning.Gate

/-!
# What a tuning call does

A call other than a begin leaves every record with its request; one that is no longer
pending keeps its result. A failure is carried by its own record, or by that of a later
request which took the slot and the gate with it; what stops carrying one is a success
of a later request, a rollback of the failed one, or a retirement.
-/

namespace DsdNeo.Tuning

open List Function

/-- A record keeps its request, and its result once it is not pending. -/
structure Record.Settles (r r' : Record) : Prop where
  requestId : r'.requestId = r.requestId
  inherited : r'.inheritedFailureGate = r.inheritedFailureGate
  free : r'.state = .free ↔ r.state = .free
  pending : r.state ≠ .pending → r'.state ≠ .pending ∧ r'.result = r.result

theorem Record.Settles.refl (r : Record) : r.Settles r := ⟨rfl, rfl, .rfl, fun h => ⟨h, rfl⟩⟩

variable {r r' : Record}

theorem Record.Settles.trans {r'' : Record} (h : r.Settles r') (h' : r'.Settles r'') :
    r.Settles r'' := by
  refine ⟨h'.1.trans h.1, h'.2.trans h.2, h'.3.trans h.3, ?_⟩
  intro hp
  obtain ⟨hp', hr⟩ := h.pending hp
  obtain ⟨hp'', hr'⟩ := h'.pending hp'
  exact ⟨hp'', hr'.trans hr⟩

/-- The record keeps the gate closed for the failure of a request: its own, or one whose
slot and gate it took. -/
def Record.Carries (r : Record) (failure : ℕ) : Prop :=
  (r.state = .failedGated ∧ r.requestId = failure) ∨
    (r.Unresolved ∧ r.inheritedFailureGate = true ∧ failure < r.requestId)

/-- What calls other than a begin come to: the failures that may not be carried any more
and the requests that succeeded. -/
structure Machine.Outcome (m m' : Machine) (gone : ℕ → Prop) (won : List ℕ) : Prop where
  good : m'.Good
  nextRequest : m'.now.nextRequest = m.now.nextRequest
  returned : m'.now.returned = m.now.returned
  committed : m'.now.committed = m.now.committed ++ won
  settles : ∀ i, (m.now.records i).Settles (m'.now.records i)
  carries : ∀ i failure, (m.now.records i).Carries failure →
    (m'.now.records i).Carries failure ∨ gone failure
  won_pending : ∀ id ∈ won, ∃ i, (m.now.records i).state = .pending ∧
    (m.now.records i).requestId = id

variable {m m' m'' : Machine}

variable {gone : ℕ → Prop}

theorem Machine.Good.same (h : m.Good) : m.Outcome m gone [] :=
  ⟨h, rfl, rfl, (append_nil _).symm, fun _ => .refl _, fun _ _ => .inl,
    fun _ hid => absurd hid not_mem_nil⟩

theorem Machine.Outcome.trans {gone' : ℕ → Prop} {won won' : List ℕ} (h : m.Outcome m' gone won)
    (h' : m'.Outcome m'' gone' won') : m.Outcome m'' (fun f => gone f ∨ gone' f) (won ++ won') := by
  refine ⟨h'.good, h'.nextRequest.trans h.nextRequest, h'.returned.trans h.returned, ?_,
    fun i => (h.settles i).trans (h'.settles i), ?_, ?_⟩
  · rw [h'.committed, h.committed, append_assoc]
  · intro i failure hc
    rcases h.carries i failure hc with hc | hg
    · rcases h'.carries i failure hc with hc | hg
      · exact .inl hc
      · exact .inr (.inr hg)
    · exact .inr (.inl hg)
  · intro id hid
    rcases mem_append.mp hid with hid | hid
    · exact h.won_pending id hid
    · obtain ⟨i, hp, rfl⟩ := h'.won_pending id hid
      have hpm : (m.now.records i).state = .pending := by
        by_contra hne
        exact ((h.settles i).pending hne).1 hp
      exact ⟨i, hpm, (h.settles i).requestId.symm⟩

theorem Machine.Outcome.weaken {gone' : ℕ → Prop} {won : List ℕ} (h : m.Outcome m' gone won)
    (hg : ∀ f, gone f → gone' f) : m.Outcome m' gone' won :=
  { h with carries := fun i f hc => (h.carries i f hc).imp_right (hg f) }

variable {i : Fin 64} {records : Fin 64 → Record}

/-- The records of a call that rewrote one of them. -/
theorem settles_update (h : (records i).Settles r) (j : Fin 64) :
    (records j).Settles (update records i r j) := by
  by_cases hji : j = i
  · subst hji
    rwa [update_self]
  · rw [update_of_ne hji]
    exact .refl _

theorem carries_update (h : ∀ f, (records i).Carries f → r.Carries f ∨ gone f) (j : Fin 64) (f : ℕ)
    (hc : (records j).Carries f) : (update records i r j).Carries f ∨ gone f := by
  by_cases hji : j = i
  · subst hji
    rw [update_self]
    exact h f hc
  · rw [update_of_ne hji]
    exact .inl hc

/-- The record of an unresolved request rewritten. -/
structure Record.Rewrites (r r' : Record) : Prop where
  settles : r.Settles r'
  unresolved : r'.Unresolved
  failed : r'.state = .failedGated → r'.result ≠ .ok
  pending : r'.state = .pending → r.state = .pending

theorem Machine.Good.rewritten (h : m.Good) (hu : (m.now.records i).Unresolved)
    (hr : (m.now.records i).Rewrites r) : m.Outcome (m.write i r) (fun _ => False) [] := by
  refine ⟨h.rewrite hu hr.unresolved hr.settles.requestId hr.pending hr.failed, rfl, rfl,
    (append_nil _).symm, settles_update hr.settles, carries_update ?_,
    fun _ hid => absurd hid not_mem_nil⟩
  rintro f (⟨hf, hid⟩ | ⟨-, hin, hlt⟩)
  · refine .inl (.inl ⟨?_, hr.settles.requestId.trans hid⟩)
    rcases hr.unresolved with hp | hf'
    · rw [hr.pending hp] at hf
      cases hf
    · exact hf'
  · refine .inl (.inr ⟨hr.unresolved, hr.settles.inherited.trans hin, ?_⟩)
    rw [hr.settles.requestId]
    exact hlt

theorem settles_finished (h : r.Unresolved) : r.Settles (r.inState .finished) := by
  refine ⟨rfl, rfl, ?_, fun _ => ⟨nofun, rfl⟩⟩
  exact iff_of_false nofun h.ne_free

/-- A record finished without a success carries no failure but its own and those before. -/
theorem Machine.Good.resolved (h : m.Good) (hu : (m.now.records i).Unresolved)
    (hres : (m.now.records i).result ≠ .ok) :
    m.Outcome (m.resolve i) (fun f => (m.now.records i).Carries f) [] :=
  ⟨h.resolve hu hres, rfl, rfl, (append_nil _).symm, settles_update (settles_finished hu),
    carries_update fun _ hc => .inr hc, fun _ hid => absurd hid not_mem_nil⟩

/-- The retiring loop, over any of the slots. -/
theorem outcome_foldl_retire (p : ℕ → Bool) (is : List (Fin 64)) (h : m.Good) :
    m.Outcome (is.foldl (fun m i =>
      if (m.now.records i).state = .failedGated ∧ p (m.now.records i).requestId then m.resolve i
      else m) m) (fun f => ∃ id, p id = true ∧ f ≤ id) [] := by
  induction is generalizing m with
  | nil => exact h.same
  | cons i is ih =>
    simp only [foldl_cons]
    by_cases hi : (m.now.records i).state = .failedGated ∧ p (m.now.records i).requestId
    · rw [if_pos hi]
      have hfirst := h.resolved (.inr hi.1) (h.failed i hi.1)
      refine (hfirst.trans (ih hfirst.good)).weaken ?_
      rintro f (hc | hg)
      · refine ⟨_, hi.2, ?_⟩
        rcases hc with ⟨-, hid⟩ | ⟨-, -, hlt⟩
        · exact hid.ge
        · exact hlt.le
      · exact hg
    · rw [if_neg hi]
      exact ih h

theorem outcome_retireWhere (p : ℕ → Bool) (h : m.Good) :
    m.Outcome (retireWhere p m) (fun f => ∃ id, p id = true ∧ f ≤ id) [] :=
  outcome_foldl_retire p (List.finRange 64) h

/-- A success lets go of the failures before it. -/
theorem outcome_finishSuccess (h : m.Good) (hp : (m.now.records i).state = .pending)
    (hb : (m.now.records i).backendComplete = true) (ho : (m.now.records i).ownerReady = true)
    (hres : (m.now.records i).result = .ok) :
    m.Outcome (finishSuccess m i) (fun f => f < (m.now.records i).requestId)
      [(m.now.records i).requestId] := by
  have hu : (m.now.records i).Unresolved := .inl hp
  have hfirst : m.Outcome ((m.generationAdvance (m.now.records i).requestId).resolve i)
      (fun f => f < (m.now.records i).requestId) [(m.now.records i).requestId] := by
    refine ⟨h.succeed hp hb ho hres, rfl, rfl, rfl, settles_update (settles_finished hu),
      carries_update ?_, fun id hid => ⟨i, hp, (mem_singleton.mp hid).symm⟩⟩
    rintro f (⟨hf, -⟩ | ⟨-, -, hlt⟩)
    · rw [hp] at hf
      cases hf
    · exact .inr hlt
  have hne : ¬ (m.now.records i).state ≠ .pending := not_not.mpr hp
  rw [finishSuccess, if_neg hne]
  have hrest := outcome_retireWhere (fun id => id < (m.now.records i).requestId) hfirst.good
  have hall := hfirst.trans hrest
  rw [append_nil] at hall
  refine hall.weaken ?_
  rintro f (hlt | ⟨id, hid, hle⟩)
  · exact hlt
  · exact hle.trans_lt (of_decide_eq_true hid)

/-- A rollback lets go of the failure of its own request only. -/
theorem outcome_finishRolledBack (h : m.Good) (hu : (m.now.records i).Unresolved)
    (hres : (m.now.records i).result ≠ .ok) :
    m.Outcome (finishRolledBack m i)
      (fun f => (m.now.records i).state = .failedGated ∧ f = (m.now.records i).requestId) [] := by
  have hne : (m.now.records i).state ≠ .finished := by
    rcases hu with h | h <;> rw [h] <;> decide
  rw [finishRolledBack, if_neg hne]
  cases hin : (m.now.records i).inheritedFailureGate with
  | true =>
    rw [if_pos rfl]
    have hset : (m.now.records i).Settles ((m.now.records i).inState .failedGated) :=
      ⟨rfl, rfl, iff_of_false nofun hu.ne_free, fun _ => ⟨nofun, rfl⟩⟩
    have hrewrite : (m.now.records i).Rewrites ((m.now.records i).inState .failedGated) :=
      ⟨hset, .inr rfl, fun _ => hres, nofun⟩
    exact (h.rewritten hu hrewrite).weaken fun _ hf => hf.elim
  | false =>
    rw [if_neg (by decide)]
    refine (h.resolved hu hres).weaken ?_
    rintro f (⟨hf, hid⟩ | ⟨-, hin', -⟩)
    · exact ⟨hf, hid.symm⟩
    · rw [hin] at hin'
      cases hin'

theorem state_of_requestFind {id : ℕ} (h : requestFind records id = some i) :
    (records i).requestId = id ∧ (records i).state ≠ .free := by
  have := find?_some h
  simpa using this

theorem requestFind_of_good (h : m.Good) {id : ℕ} (hid : (m.now.records i).requestId = id)
    (hfree : (m.now.records i).state ≠ .free) : requestFind m.now.records id = some i := by
  cases hfind : requestFind m.now.records id with
  | none =>
    have := find?_eq_none.mp hfind i (mem_finRange i)
    simp [hid, hfree] at this
  | some j =>
    obtain ⟨hj, hfj⟩ := state_of_requestFind hfind
    rw [h.distinct j i hfj hfree (hj.trans hid.symm)]

/-- What the record's fields are made of leaves its request and its place alone. -/
theorem rewrites_pending (hp : r.state = .pending) (hp' : r'.state = .pending)
    (hid : r'.requestId = r.requestId) (hin : r'.inheritedFailureGate = r.inheritedFailureGate) :
    r.Rewrites r' := by
  refine ⟨⟨hid, hin, ?_, fun hne => absurd hp hne⟩, .inl hp', ?_, fun _ => hp⟩
  · rw [hp, hp']
  · rw [hp']
    exact nofun

theorem rewrites_gated {q : Record} (hp : r.state = .pending) (hq : q.state = .failedGated)
    (hid : q.requestId = r.requestId) (hin : q.inheritedFailureGate = r.inheritedFailureGate)
    (hres : q.result ≠ .ok) : r.Rewrites q := by
  refine ⟨⟨hid, hin, ?_, fun hne => absurd hp hne⟩, .inr hq, fun _ => hres, fun _ => hp⟩
  rw [hp, hq]
  exact iff_of_false nofun nofun

theorem outcome_succeed_after (h : m.Good) (hu : (m.now.records i).Unresolved)
    (hr : (m.now.records i).Rewrites r) (hp : r.state = .pending) (hb : r.backendComplete = true)
    (ho : r.ownerReady = true) (hres : r.result = .ok) :
    m.Outcome (finishSuccess (m.write i r) i) (fun f => f < (m.now.records i).requestId)
      [(m.now.records i).requestId] := by
  have hwrite := h.rewritten hu hr
  have hself : (m.write i r).now.records i = r := update_self _ _ _
  have hfinish := outcome_finishSuccess (i := i) hwrite.good (by rw [hself, hp])
    (by rw [hself, hb]) (by rw [hself, ho]) (by rw [hself, hres])
  rw [hself, hr.settles.requestId] at hfinish
  refine (hwrite.trans hfinish).weaken ?_
  rintro f (hf | hf)
  · exact hf.elim
  · exact hf

theorem outcome_rollBack_after (h : m.Good) (hu : (m.now.records i).Unresolved)
    (hr : (m.now.records i).Rewrites r) (hres : r.result ≠ .ok) :
    m.Outcome (finishRolledBack (m.write i r) i)
      (fun f => r.state = .failedGated ∧ f = (m.now.records i).requestId) [] := by
  have hwrite := h.rewritten hu hr
  have hself : (m.write i r).now.records i = r := update_self _ _ _
  have hfinish := outcome_finishRolledBack (i := i) hwrite.good
    (by rw [hself]; exact hr.unresolved) (by rw [hself]; exact hres)
  rw [hself, hr.settles.requestId] at hfinish
  refine (hwrite.trans hfinish).weaken ?_
  rintro f (hf | hf)
  · exact hf.elim
  · exact hf

theorem outcome_gate_after (h : m.Good) (hp : (m.now.records i).state = .pending)
    (hr : (m.now.records i).Rewrites r) (hrp : r.state = .pending) (hr' : r.Rewrites r')
    (hg : r'.state = .failedGated) :
    m.Outcome ((m.write i r).write i r') (fun _ => False) [] ∧
      (((m.write i r).write i r').now.records i).Carries (m.now.records i).requestId := by
  have hwrite := h.rewritten (.inl hp) hr
  have hself : (m.write i r).now.records i = r := update_self _ _ _
  have hgate := hwrite.good.rewritten (i := i) (r := r')
    (by rw [hself]; exact .inl hrp) (by rw [hself]; exact hr')
  refine ⟨(hwrite.trans hgate).weaken fun f hf => hf.elim id id, .inl ?_⟩
  have hlast : ((m.write i r).write i r').now.records i = r' := update_self _ _ _
  rw [hlast]
  exact ⟨hg, hr'.settles.requestId.trans hr.settles.requestId⟩

/-- The backend fails a request that still has its owner. -/
def PublishFails (m : Machine) (id : ℕ) (result : TuneResult) : Prop :=
  id ≠ 0 ∧ result ≠ .pending ∧ result ≠ .ok ∧ ∃ i, requestFind m.now.records id = some i ∧
    (m.now.records i).state = .pending ∧ (m.now.records i).disowned = false

/-- The owner's answer is not the one the backend gave. -/
def Disagrees (m : Machine) (id : ℕ) (result : TuneResult) : Prop :=
  id ≠ 0 ∧ result ≠ .pending ∧ ∃ i, requestFind m.now.records id = some i ∧
    (m.now.records i).state = .pending ∧ (m.now.records i).backendComplete = true ∧
    (m.now.records i).result.isComplete ≠ result.isComplete

/-- Some record carries the failure. -/
def Machine.Carried (m : Machine) (failure : ℕ) : Prop :=
  ∃ i, (m.now.records i).Carries failure

/-- A publication: a success, or nothing that stops carrying a failure. -/
theorem outcome_publish (h : m.Good) (id : ℕ) (result : TuneResult) (t : ℕ) :
    (m.Outcome (requestPublish m id result t) (fun f => f < id) [id] ∧
        ¬ PublishFails m id result) ∨
      (m.Outcome (requestPublish m id result t) (fun _ => False) [] ∧
        (PublishFails m id result → (requestPublish m id result t).Carried id)) := by
  unfold requestPublish
  by_cases hnone : id = 0 ∨ result = .pending
  · rw [if_pos hnone]
    refine .inr ⟨h.same, ?_⟩
    rintro ⟨hid, hr, -⟩
    rcases hnone with h | h
    · exact absurd h hid
    · exact absurd h hr
  rw [if_neg hnone]
  cases hfind : requestFind m.now.records id with
  | none =>
    refine .inr ⟨h.same, ?_⟩
    rintro ⟨-, -, -, i, hi, -⟩
    rw [hfind] at hi
    cases hi
  | some i =>
    obtain ⟨rfl, -⟩ := state_of_requestFind hfind
    dsimp only
    by_cases hp : (m.now.records i).state = .pending
    · rw [if_neg (not_not.mpr hp)]
      have hu : (m.now.records i).Unresolved := .inl hp
      have hr : (m.now.records i).Rewrites ((m.now.records i).answered result t) :=
        rewrites_pending hp hp rfl rfl
      cases hok : result.isComplete with
      | true =>
        have hresult : result = .ok := of_decide_eq_true hok
        have hnot : ¬ PublishFails m (m.now.records i).requestId result :=
          fun hf => hf.2.2.1 hresult
        rw [if_pos rfl]
        by_cases ho : (m.now.records i).ownerReady = true
        · rw [if_pos (show ((m.now.records i).answered result t).ownerReady = true from ho)]
          exact .inl ⟨outcome_succeed_after h hu hr hp rfl ho hresult, hnot⟩
        · rw [if_neg (show ¬ ((m.now.records i).answered result t).ownerReady = true from ho)]
          exact .inr ⟨h.rewritten hu hr, fun hf => absurd hf hnot⟩
      | false =>
        have hresult : result ≠ .ok := of_decide_eq_false hok
        rw [if_neg (by decide)]
        right
        by_cases hd : (m.now.records i).disowned = true
        · rw [if_pos (show ((m.now.records i).answered result t).disowned = true from hd)]
          refine ⟨(outcome_rollBack_after h hu hr hresult).weaken ?_, ?_⟩
          · rintro f ⟨hf, -⟩
            rw [show ((m.now.records i).answered result t).state = .pending from hp] at hf
            cases hf
          · rintro ⟨-, -, -, j, hj, -, hdj⟩
            rw [hfind, Option.some.injEq] at hj
            rw [← hj, hd] at hdj
            cases hdj
        · rw [if_neg (show ¬ ((m.now.records i).answered result t).disowned = true from hd)]
          obtain ⟨hout, hcarry⟩ := outcome_gate_after h hp hr hp
            (rewrites_gated (q := ((m.now.records i).answered result t).inState .failedGated)
              hp rfl rfl rfl hresult) rfl
          exact ⟨hout, fun _ => ⟨i, hcarry⟩⟩
    · rw [if_pos hp]
      refine .inr ⟨h.same, ?_⟩
      rintro ⟨-, -, -, j, hj, hpj, -⟩
      rw [hfind, Option.some.injEq] at hj
      exact absurd (hj ▸ hpj) hp

theorem outcome_markReady (h : m.Good) (id : ℕ) :
    m.Outcome (requestMarkReady m id) (fun f => f < id) [id] ∨
      m.Outcome (requestMarkReady m id) (fun _ => False) [] := by
  unfold requestMarkReady
  by_cases hid : id = 0
  · rw [if_pos hid]
    exact .inr h.same
  rw [if_neg hid]
  cases hfind : requestFind m.now.records id with
  | none => exact .inr h.same
  | some i =>
    obtain ⟨rfl, -⟩ := state_of_requestFind hfind
    dsimp only
    by_cases hp : (m.now.records i).state = .pending
    · rw [if_neg (not_not.mpr hp)]
      have hu : (m.now.records i).Unresolved := .inl hp
      have hr : (m.now.records i).Rewrites (m.now.records i).ready :=
        rewrites_pending hp hp rfl rfl
      by_cases hboth :
          ((m.now.records i).backendComplete && (m.now.records i).result.isComplete) = true
      · rw [if_pos hboth]
        rw [Bool.and_eq_true] at hboth
        exact .inl (outcome_succeed_after h hu hr hp hboth.1 rfl (of_decide_eq_true hboth.2))
      · rw [if_neg hboth]
        exact .inr (h.rewritten hu hr)
    · rw [if_pos hp]
      exact .inr h.same

/-- Letting go of a request: a success, or a rollback of its own failure. -/
theorem outcome_disown (h : m.Good) (id : ℕ) :
    m.Outcome (requestDisown m id) (fun f => f < id) [id] ∨
      m.Outcome (requestDisown m id) (fun f => f = id) [] := by
  unfold requestDisown
  by_cases hid : id = 0
  · rw [if_pos hid]
    exact .inr h.same
  rw [if_neg hid]
  cases hfind : requestFind m.now.records id with
  | none => exact .inr h.same
  | some i =>
    obtain ⟨rfl, -⟩ := state_of_requestFind hfind
    dsimp only
    by_cases hp : (m.now.records i).state = .pending
    · rw [if_pos hp]
      have hu : (m.now.records i).Unresolved := .inl hp
      have hr : (m.now.records i).Rewrites (m.now.records i).letGo :=
        rewrites_pending hp hp rfl rfl
      by_cases hboth :
          ((m.now.records i).backendComplete && (m.now.records i).result.isComplete) = true
      · rw [if_pos hboth]
        rw [Bool.and_eq_true] at hboth
        exact .inl (outcome_succeed_after h hu hr hp hboth.1 rfl (of_decide_eq_true hboth.2))
      · rw [if_neg hboth]
        exact .inr ((h.rewritten hu hr).weaken fun f hf => hf.elim)
    · rw [if_neg hp]
      by_cases hf : (m.now.records i).state = .failedGated
      · rw [if_pos hf]
        exact .inr ((outcome_finishRolledBack h (.inr hf) (h.failed i hf)).weaken fun f hf => hf.2)
      · rw [if_neg hf]
        exact .inr h.same

/-- A return whose owner answers before the backend: the answer is the backend's as well. -/
theorem outcome_answered (h : m.Good) (hp : (m.now.records i).state = .pending)
    (result : TuneResult) (t : ℕ) :
    (result.isComplete = true → m.Outcome
      (finishSuccess ((m.write i (m.now.records i).ready).write i
        ((m.now.records i).ready.answered result t)) i)
      (fun f => f < (m.now.records i).requestId) [(m.now.records i).requestId]) ∧
    (result.isComplete = false → m.Outcome
      (finishRolledBack ((m.write i (m.now.records i).ready).write i
        ((m.now.records i).ready.answered result t)) i) (fun _ => False) []) := by
  have hready : (m.now.records i).Rewrites (m.now.records i).ready :=
    rewrites_pending hp hp rfl rfl
  have hfirst := h.rewritten (.inl hp) hready
  have hself : (m.write i (m.now.records i).ready).now.records i =
      (m.now.records i).ready := update_self _ _ _
  have hr : ((m.write i (m.now.records i).ready).now.records i).Rewrites
      ((m.now.records i).ready.answered result t) := by
    rw [hself]
    exact rewrites_pending hp hp rfl rfl
  have hu : ((m.write i (m.now.records i).ready).now.records i).Unresolved := by
    rw [hself]
    exact .inl hp
  constructor
  · intro hok
    have hsecond := outcome_succeed_after hfirst.good hu hr hp rfl rfl (of_decide_eq_true hok)
    rw [hself] at hsecond
    exact (hfirst.trans hsecond).weaken fun f hf => hf.elim False.elim id
  · intro hok
    have hsecond := outcome_rollBack_after hfirst.good hu hr (of_decide_eq_false hok)
    refine (hfirst.trans hsecond).weaken ?_
    rintro f (hf | ⟨hf, -⟩)
    · exact hf
    · rw [show ((m.now.records i).ready.answered result t).state = .pending from hp] at hf
      cases hf

/-- A return on which owner and backend agree. -/
theorem outcome_agreed (h : m.Good) (hp : (m.now.records i).state = .pending)
    (hb : (m.now.records i).backendComplete = true) :
    ((m.now.records i).result.isComplete = true → m.Outcome
      (finishSuccess (m.write i (m.now.records i).ready) i)
      (fun f => f < (m.now.records i).requestId) [(m.now.records i).requestId]) ∧
    ((m.now.records i).result.isComplete = false → m.Outcome
      (finishRolledBack (m.write i (m.now.records i).ready) i) (fun _ => False) []) := by
  have hr : (m.now.records i).Rewrites (m.now.records i).ready := rewrites_pending hp hp rfl rfl
  constructor
  · intro hok
    exact outcome_succeed_after h (.inl hp) hr hp hb rfl (of_decide_eq_true hok)
  · intro hok
    refine (outcome_rollBack_after h (.inl hp) hr (of_decide_eq_false hok)).weaken ?_
    rintro f ⟨hf, -⟩
    rw [show (m.now.records i).ready.state = .pending from hp] at hf
    cases hf

/-- A return on which they disagree closes the gate on the request. -/
theorem outcome_disagreed (h : m.Good) (hp : (m.now.records i).state = .pending)
    {result : TuneResult} (hne : (m.now.records i).result.isComplete ≠ result.isComplete) :
    let r := if !result.isComplete then (m.now.records i).ready.overruled result
      else (m.now.records i).ready
    m.Outcome ((m.write i (m.now.records i).ready).write i (r.inState .failedGated))
        (fun _ => False) [] ∧
      ((m.write i (m.now.records i).ready).write i (r.inState .failedGated)).Carried
        (m.now.records i).requestId := by
  have hr : (m.now.records i).Rewrites (m.now.records i).ready := rewrites_pending hp hp rfl rfl
  cases hoc : result.isComplete with
  | true =>
    have hbne : (m.now.records i).result ≠ .ok :=
      fun hok => hne (hoc ▸ decide_eq_true hok)
    obtain ⟨hout, hcarry⟩ := outcome_gate_after h hp hr hp
      (rewrites_gated (q := (m.now.records i).ready.inState .failedGated) hp rfl rfl rfl hbne) rfl
    exact ⟨hout, i, hcarry⟩
  | false =>
    obtain ⟨hout, hcarry⟩ := outcome_gate_after h hp hr hp
      (rewrites_gated (q := ((m.now.records i).ready.overruled result).inState .failedGated)
        hp rfl rfl rfl (of_decide_eq_false hoc)) rfl
    exact ⟨hout, i, hcarry⟩

/-- A return after the backend's failure closed the gate: it rolls the failure back, or is
too late. -/
theorem outcome_gated (h : m.Good) (hf : (m.now.records i).state = .failedGated) :
    m.Outcome (m.write i (m.now.records i).ready) (fun _ => False) [] ∧
      m.Outcome (finishRolledBack (m.write i (m.now.records i).ready) i)
        (fun f => f = (m.now.records i).requestId) [] := by
  have hr : (m.now.records i).Rewrites (m.now.records i).ready :=
    ⟨⟨rfl, rfl, .rfl, fun hp => ⟨hp, rfl⟩⟩, .inr hf, h.failed i, id⟩
  refine ⟨h.rewritten (.inr hf) hr, ?_⟩
  exact (outcome_rollBack_after h (.inr hf) hr (h.failed i hf)).weaken fun _ hid => hid.2

/-- What `Disagrees` says of the request's record. -/
theorem disagrees_record {id : ℕ} {result : TuneResult}
    (hfind : requestFind m.now.records id = some i) (hd : Disagrees m id result) :
    (m.now.records i).state = .pending ∧
      (m.now.records i).backendComplete = true ∧
      (m.now.records i).result.isComplete ≠ result.isComplete := by
  obtain ⟨-, -, j, hj, hrecord⟩ := hd
  rw [hfind, Option.some.injEq] at hj
  exact hj ▸ hrecord

/-- A completion: a success, a rollback by the owner, or a disagreement that gates. -/
theorem outcome_complete (h : m.Good) (id : ℕ) (result : TuneResult) (t : ℕ) :
    (m.Outcome (requestComplete m id result t) (fun f => f < id) [id] ∧
        ¬ Disagrees m id result) ∨
      (m.Outcome (requestComplete m id result t)
          (fun f => f = id ∧ result ≠ .ok ∧ result ≠ .pending ∧ ¬ Disagrees m id result) [] ∧
        (Disagrees m id result → (requestComplete m id result t).Carried id)) := by
  unfold requestComplete
  by_cases hnone : id = 0 ∨ result = .pending
  · rw [if_pos hnone]
    exact .inr ⟨h.same, fun hd => hnone.elim (absurd · hd.1) (absurd · hd.2.1)⟩
  rw [if_neg hnone]
  cases hfind : requestFind m.now.records id with
  | none =>
    refine .inr ⟨h.same, ?_⟩
    rintro ⟨-, -, i, hi, -⟩
    rw [hfind] at hi
    cases hi
  | some i =>
    obtain ⟨rfl, hfree⟩ := state_of_requestFind hfind
    have hnot : ¬ ((m.now.records i).state = .pending ∧
        (m.now.records i).backendComplete = true ∧
        (m.now.records i).result.isComplete ≠ result.isComplete) →
        ¬ Disagrees m (m.now.records i).requestId result :=
      fun hrecord hd => hrecord (disagrees_record hfind hd)
    dsimp only
    by_cases hfin : (m.now.records i).state = .finished
    · rw [if_pos hfin]
      have hsame := hnot fun hd => by rw [hfin] at hd; exact nomatch hd.1
      exact .inr ⟨h.same, fun hd => absurd hd hsame⟩
    rw [if_neg hfin]
    by_cases hf : (m.now.records i).state = .failedGated
    · -- a backend failure raced the owner's return
      have hsame := hnot fun hd => by rw [hf] at hd; exact nomatch hd.1
      obtain ⟨hlate, hback⟩ := outcome_gated h hf
      rw [if_pos (show (m.now.records i).ready.state = .failedGated from hf)]
      refine .inr ⟨?_, fun hd => absurd hd hsame⟩
      cases hok : result.isComplete with
      | true => exact hlate.weaken fun _ hf => hf.elim
      | false =>
        refine hback.weaken fun f hid => ⟨hid, of_decide_eq_false hok, ?_, hsame⟩
        exact fun hr => hnone (.inr hr)
    rw [if_neg (show ¬ (m.now.records i).ready.state = .failedGated from hf)]
    have hp : (m.now.records i).state = .pending := by
      cases hst : (m.now.records i).state with
      | free => exact absurd hst hfree
      | pending => rfl
      | failedGated => exact absurd hst hf
      | finished => exact absurd hst hfin
    by_cases hb : (m.now.records i).backendComplete = true
    · have hready : (m.now.records i).ready.backendComplete = true := hb
      have hresult : (m.now.records i).ready.result = (m.now.records i).result := rfl
      rw [hready, Bool.not_true, if_neg (by decide), hresult]
      obtain ⟨hboth, hneither⟩ := outcome_agreed h hp hb
      by_cases hne : (m.now.records i).result.isComplete = result.isComplete
      · have hsame := hnot fun hd => hd.2.2 hne
        rw [hne] at hboth hneither ⊢
        cases hoc : result.isComplete with
        | true => exact .inl ⟨hboth hoc, hsame⟩
        | false =>
          exact .inr ⟨(hneither hoc).weaken fun _ hf => hf.elim, fun hd => absurd hd hsame⟩
      · obtain ⟨hout, hcarried⟩ := outcome_disagreed h hp hne
        rw [if_neg (by grind), if_neg (by grind)]
        exact .inr ⟨hout.weaken fun _ hf => hf.elim, fun _ => hcarried⟩
    · have hsame := hnot fun hd => hb hd.2.1
      have hready : (m.now.records i).ready.backendComplete = false := Bool.not_eq_true _ ▸ hb
      obtain ⟨hwon, hback⟩ := outcome_answered h hp result t
      rw [hready, Bool.not_false, if_pos rfl]
      cases hok : result.isComplete with
      | true => exact .inl ⟨hwon hok, hsame⟩
      | false =>
        exact .inr ⟨(hback hok).weaken fun _ hf => hf.elim, fun hd => absurd hd hsame⟩

end DsdNeo.Tuning
