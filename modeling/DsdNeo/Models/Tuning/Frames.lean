import DsdNeo.Models.Tuning.Begin

/-!
# The gate over runs of calls

Every failure that was not let go is carried by some record, so the count stays up
until a later request succeeds. A frame found current was so at one instant: the
generation was its own there and no request whose begin had returned was unresolved.
-/

namespace DsdNeo.Tuning

open List

variable {m m' : Machine}

/-- The requests that succeeded at a call. -/
def succeeded (m m' : Machine) : List ℕ := m'.now.committed.drop m.now.committed.length

/-- The call is the backend failing the request, or its owner and backend disagreeing. -/
def Call.Fails : Call → Machine → ℕ → Prop
  | .publish id result _, m, failure => failure = id ∧ PublishFails m id result
  | .complete id result _, m, failure => failure = id ∧ Disagrees m id result
  | _, _, _ => False

/-- The call rolls the request back, disowns it or retires it. -/
def Call.LetsGo : Call → Machine → ℕ → Prop
  | .complete id result _, m, failure =>
    failure = id ∧ result ≠ .ok ∧ result ≠ .pending ∧ ¬ Disagrees m id result
  | .disown id, _, failure => failure = id
  | .retire, _, _ => True
  | .retireThrough id, _, failure => failure ≤ id
  | _, _, _ => False

/-- The failures left after a call: none that was let go, none a later request outlived. -/
def Call.outstanding (c : Call) (m : Machine) (failures : Set ℕ) : Set ℕ :=
  { f | (f ∈ failures ∧ ¬ c.LetsGo m f ∨ c.Fails m f) ∧ ∀ id ∈ succeeded m (c.apply m), ¬ f < id }

/-- The failures left after a sequence of calls. -/
def outstanding (m : Machine) (failures : Set ℕ) : List Call → Set ℕ
  | [] => failures
  | c :: calls => outstanding (c.apply m) (c.outstanding m failures) calls

/-- Every failure left is of a request handed out, and some record carries it. -/
def CarriesAll (m : Machine) (failures : Set ℕ) : Prop :=
  ∀ f ∈ failures, f ≤ m.now.nextRequest ∧ m.Carried f

theorem succeeded_of_outcome {gone : ℕ → Prop} {won : List ℕ} (h : m.Outcome m' gone won) :
    succeeded m m' = won := by
  rw [succeeded, h.committed, drop_left]

variable {failures : Set ℕ}

/-- A call that lets go only of what the rules let it keeps every failure carried. -/
theorem CarriesAll.step {failures' : Set ℕ} {gone : ℕ → Prop} {won : List ℕ}
    (h : CarriesAll m failures) (hout : m.Outcome m' gone won)
    (hrule : ∀ f ∈ failures', (f ∈ failures ∧ ¬ gone f) ∨
      (f ≤ m.now.nextRequest ∧ m'.Carried f)) : CarriesAll m' failures' := by
  intro f hf
  rw [hout.nextRequest]
  rcases hrule f hf with ⟨hold, hgone⟩ | hnew
  · obtain ⟨hle, i, hc⟩ := h f hold
    exact ⟨hle, i, (hout.carries i f hc).resolve_right hgone⟩
  · exact hnew

/-- A slot taken over hands its failures to the request that takes it. -/
theorem CarriesAll.begin (h : CarriesAll m failures)
    (hnext : m'.now.nextRequest = m.now.nextRequest + 1)
    (hopens : Opens m.now.records m'.now.records (m.now.nextRequest + 1)) :
    CarriesAll m' failures := by
  intro f hf
  obtain ⟨hle, j, hc⟩ := h f hf
  refine ⟨hnext ▸ hle.trans (Nat.le_succ _), j, ?_⟩
  rcases hopens with hsame | ⟨i, inherited, hupd, hslot⟩
  · rw [hsame]
    exact hc
  · rw [hupd]
    by_cases hji : j = i
    · subst hji
      rw [Function.update_self]
      have hu : (m.now.records j).Unresolved := by
        rcases hc with ⟨hf', -⟩ | ⟨hu, -⟩
        · exact .inr hf'
        · exact hu
      cases inherited with
      | true => exact .inr ⟨.inl rfl, rfl, Nat.lt_succ_of_le hle⟩
      | false =>
        rcases hslot with hs | hs
        · exact absurd hs hu.ne_free
        · rcases hu with hu | hu <;> rw [hu] at hs <;> cases hs
    · rw [Function.update_of_ne hji]
      exact hc

theorem call_outcome (h : m.Good) {c : Call} (hc : c ≠ .begin) :
    ∃ gone won, m.Outcome (c.apply m) gone won ∧ won.length ≤ 1 ∧
      ∀ f, (gone f → c.LetsGo m f ∨ ∃ id ∈ won, f < id) ∧
        (c.Fails m f → f ≤ m.now.nextRequest ∧ (c.apply m).Carried f) := by
  have hfound : ∀ {id : ℕ} {i : Fin 64}, requestFind m.now.records id = some i →
      id ≤ m.now.nextRequest := by
    intro id i hfind
    obtain ⟨rfl, hfree⟩ := state_of_requestFind hfind
    exact (h.ids i hfree).2
  cases c with
  | begin => exact absurd rfl hc
  | publish id result t =>
    rcases outcome_publish h id result t with ⟨hout, hnot⟩ | ⟨hout, hcarry⟩
    · refine ⟨_, _, hout, le_refl _, fun f => ⟨fun hf => .inr ⟨id, by simp, hf⟩, ?_⟩⟩
      rintro ⟨rfl, hf⟩
      exact absurd hf hnot
    · refine ⟨_, _, hout, Nat.zero_le _, fun f => ⟨fun hf => hf.elim, ?_⟩⟩
      rintro ⟨rfl, hf⟩
      have hle : f ≤ m.now.nextRequest := by
        obtain ⟨-, -, -, i, hfind, -⟩ := hf
        exact hfound hfind
      exact ⟨hle, hcarry hf⟩
  | markReady id =>
    rcases outcome_markReady h id with hout | hout
    · exact ⟨_, _, hout, le_refl _, fun f => ⟨fun hf => .inr ⟨id, by simp, hf⟩, fun hf => hf.elim⟩⟩
    · exact ⟨_, _, hout, Nat.zero_le _, fun f => ⟨fun hf => hf.elim, fun hf => hf.elim⟩⟩
  | complete id result t =>
    rcases outcome_complete h id result t with ⟨hout, hnot⟩ | ⟨hout, hcarry⟩
    · refine ⟨_, _, hout, le_refl _, fun f => ⟨fun hf => .inr ⟨id, by simp, hf⟩, ?_⟩⟩
      rintro ⟨rfl, hf⟩
      exact absurd hf hnot
    · refine ⟨_, _, hout, Nat.zero_le _, fun f => ⟨.inl, ?_⟩⟩
      rintro ⟨rfl, hf⟩
      have hle : f ≤ m.now.nextRequest := by
        obtain ⟨-, -, i, hfind, -⟩ := hf
        exact hfound hfind
      exact ⟨hle, hcarry hf⟩
  | disown id =>
    rcases outcome_disown h id with hout | hout
    · exact ⟨_, _, hout, le_refl _, fun f => ⟨fun hf => .inr ⟨id, by simp, hf⟩, fun hf => hf.elim⟩⟩
    · exact ⟨_, _, hout, Nat.zero_le _, fun f => ⟨.inl, fun hf => hf.elim⟩⟩
  | retire =>
    simp only [Call.apply, retireFailedRequests]
    split
    · exact ⟨fun _ => False, [], h.same, Nat.zero_le _,
        fun f => ⟨fun hf => hf.elim, fun hf => hf.elim⟩⟩
    · exact ⟨_, _, outcome_retireWhere _ h, Nat.zero_le _,
        fun f => ⟨fun _ => .inl trivial, fun hf => hf.elim⟩⟩
  | retireThrough id =>
    simp only [Call.apply, retireFailedRequestsThrough]
    split
    · exact ⟨fun _ => False, [], h.same, Nat.zero_le _,
        fun f => ⟨fun hf => hf.elim, fun hf => hf.elim⟩⟩
    · refine ⟨_, _, outcome_retireWhere _ h, Nat.zero_le _, fun f => ⟨?_, fun hf => hf.elim⟩⟩
      rintro ⟨k, hk, hle⟩
      exact .inl (hle.trans (of_decide_eq_true hk))

/-- The state of a run: the machine between calls, with every failure left carried. -/
structure Sound (m : Machine) (failures : Set ℕ) (begins : ℕ) : Prop where
  good : m.Good
  nextRequest : m.now.nextRequest = begins
  carries : CarriesAll m failures

/-- One for a begin. -/
def Call.begins : Call → ℕ
  | .begin => 1
  | _ => 0

theorem Sound.step {n : ℕ} (h : Sound m failures n) (c : Call) (hbound : n + c.begins < 2 ^ 64) :
    Sound (c.apply m) (c.outstanding m failures) (n + c.begins) := by
  by_cases hc : c = .begin
  · subst hc
    obtain ⟨hgood, hnext, -, hopens⟩ := begin_spec h.good (h.nextRequest ▸ hbound)
    refine ⟨hgood, hnext.trans (by rw [h.nextRequest]; rfl), ?_⟩
    intro f hf
    rcases hf.1 with ⟨hold, -⟩ | hfails
    · exact (h.carries.begin hnext hopens) f hold
    · exact hfails.elim
  · obtain ⟨gone, won, hout, -, hrule⟩ := call_outcome h.good hc
    have hzero : c.begins = 0 := by
      cases c <;> first | rfl | exact absurd rfl hc
    refine ⟨hout.good, by rw [hout.nextRequest, h.nextRequest, hzero, Nat.add_zero], ?_⟩
    apply h.carries.step hout
    rintro f ⟨hf, hlater⟩
    rw [succeeded_of_outcome hout] at hlater
    rcases hf with ⟨hold, hkept⟩ | hfails
    · refine .inl ⟨hold, fun hgone => ?_⟩
      rcases (hrule f).1 hgone with hlet | ⟨id, hid, hlt⟩
      · exact hkept hlet
      · exact hlater id hid hlt
    · exact .inr ((hrule f).2 hfails)

/-- The begins among some calls. -/
def begins (calls : List Call) : ℕ := (calls.map Call.begins).sum

theorem Sound.run {n : ℕ} (h : Sound m failures n) (calls : List Call)
    (hbound : n + begins calls < 2 ^ 64) :
    Sound (run m calls) (outstanding m failures calls) (n + begins calls) := by
  induction calls generalizing m failures n with
  | nil => exact h
  | cons c calls ih =>
    rw [show begins (c :: calls) = c.begins + begins calls from sum_cons, ← Nat.add_assoc]
      at hbound ⊢
    exact ih (h.step c (by omega)) hbound

theorem sound_start : Sound start ∅ 0 := by
  have hfree : ∀ i : Fin 64, (start.now.records i).state = .free := fun _ => rfl
  refine ⟨?_, rfl, fun f hf => hf.elim⟩
  have hzero : ∀ (p : Record → Prop) [DecidablePred p], ¬ p Record.zero →
      number p start.now.records = 0 := by
    intro p _ hp
    exact Finset.sum_eq_zero fun i _ => if_neg hp
  have hunresolved : number Record.Unresolved start.now.records = 0 :=
    hzero _ (by rintro (h | h) <;> cases h)
  have hcovered : start.now.Covered :=
    covered_of_unresolved (by rw [hunresolved]; exact le_refl _) rfl
  exact
    { count := by rw [hunresolved]; rfl
      ids := fun i hi => absurd (hfree i) hi
      distinct := fun i _ hi => absurd (hfree i) hi
      returned_le := fun id hid => absurd hid not_mem_nil
      failed := fun i hi => by rw [hfree i] at hi; cases hi
      ended := fun i hi => absurd (hfree i) hi
      committed_le := fun id hid => absurd hid not_mem_nil
      nodup := nodup_nil
      budget := by
        rw [hzero Record.Pending (fun h => by cases h)]
        exact le_refl _
      covered := by
        intro x hx
        rw [mem_singleton.mp hx]
        exact hcovered
      growing := pairwise_singleton _ _ }

/-- A request's record is still in the history. -/
def Retained (m : Machine) (id : ℕ) : Prop :=
  ∃ i, (m.now.records i).requestId = id ∧ (m.now.records i).state ≠ .free

/-- Every instant of a run, the earliest first. -/
def Machine.history (m : Machine) : List Instant := m.timeline.reverse

/-- What the requests and the gate come to after some calls. -/
structure RequestGate (calls : List Call) : Prop where
  /-- The count is the number of records in flight or awaiting recovery. -/
  count : (run start calls).now.unresolvedCount =
    number Record.Unresolved (run start calls).now.records
  /-- The generation advanced once for each request noted as committed, each noted once. -/
  generation : (run start calls).now.generation =
      (1 + (run start calls).now.committed.length) % 2 ^ 64 ∧
    (run start calls).now.committed.Nodup
  /-- A call notes at most one request: the one that ends with both sides committed. -/
  advance : ∀ pre c, calls = pre ++ [c] → ∃ won : List ℕ, won.length ≤ 1 ∧
    (run start calls).now.committed = (run start pre).now.committed ++ won ∧
    ∀ id, id ∈ won ↔ ∃ i, ((run start pre).now.records i).state = .pending ∧
      ((run start pre).now.records i).requestId = id ∧
      ((run start calls).now.records i).requestId = id ∧
      ((run start calls).now.records i).BothCommitted
  /-- A status that is not pending stays while the record is retained. -/
  status : ∀ pre post, calls = pre ++ post → ∀ id, Retained (run start pre) id →
    Retained (run start calls) id → requestStatus (run start pre).now.records id ≠ .pending →
    requestStatus (run start calls).now.records id = requestStatus (run start pre).now.records id
  /-- A failure not let go keeps the count up until a later request succeeds. -/
  failure : (outstanding start ∅ calls).Nonempty → (run start calls).now.unresolvedCount ≠ 0
  /-- A frame found current was so at one instant, with no request handed out unresolved. -/
  frame : ∀ (g t₁ t₂ t₃ t₄ : ℕ) (x₁ x₂ x₃ x₄ : Instant), t₁ ≤ t₂ → t₂ ≤ t₃ → t₃ ≤ t₄ →
    (run start calls).history[t₁]? = some x₁ → (run start calls).history[t₂]? = some x₂ →
    (run start calls).history[t₃]? = some x₃ → (run start calls).history[t₄]? = some x₄ →
    frameIsCurrent g x₁ x₂ x₃ x₄ = true →
    ∃ (t : ℕ) (x : Instant), t₁ ≤ t ∧ t ≤ t₄ ∧ (run start calls).history[t]? = some x ∧
      x.generation = g ∧
      ∀ i, (x.records i).Unresolved → (x.records i).requestId ∉ x.returned

theorem run_append (m : Machine) (pre post : List Call) :
    run m (pre ++ post) = run (run m pre) post := foldl_append

theorem run_concat (m : Machine) (pre : List Call) (c : Call) :
    run m (pre ++ [c]) = c.apply (run m pre) := run_append m pre [c]

theorem begins_append (pre post : List Call) : begins (pre ++ post) = begins pre + begins post := by
  simp [begins]

/-- The machine after calls that leave ids to spare. -/
theorem good_run (calls : List Call) (hbound : begins calls < 2 ^ 64) :
    Sound (run start calls) (outstanding start ∅ calls) (begins calls) := by
  have := sound_start.run calls (by omega)
  rwa [Nat.zero_add] at this

theorem advance_step (h : m.Good) (c : Call) (hbound : m.now.nextRequest + c.begins < 2 ^ 64) :
    ∃ won : List ℕ, won.length ≤ 1 ∧
      (c.apply m).now.committed = m.now.committed ++ won ∧
      ∀ id, id ∈ won ↔ ∃ i, (m.now.records i).state = .pending ∧
        (m.now.records i).requestId = id ∧ ((c.apply m).now.records i).requestId = id ∧
        ((c.apply m).now.records i).BothCommitted := by
  by_cases hc : c = .begin
  · subst hc
    obtain ⟨-, -, hcom, hopens⟩ := begin_spec h hbound
    refine ⟨[], Nat.zero_le _, by rw [append_nil]; exact hcom, fun id => ?_⟩
    refine iff_of_false not_mem_nil ?_
    rintro ⟨i, hp, -, -, hboth⟩
    refine not_bothCommitted_of_unresolved ?_ hboth
    rcases hopens with hsame | ⟨j, inherited, hupd, -⟩
    · exact .inl ((congrArg (fun rs => (rs i).state) hsame).trans hp)
    · refine .inl ((congrArg (fun rs => (rs i).state) hupd).trans ?_)
      by_cases hij : i = j
      · subst hij
        simp [Record.opened]
      · simpa [hij] using hp
  · obtain ⟨gone, won, hout, hone, -⟩ := call_outcome h hc
    refine ⟨won, hone, hout.committed, fun id => ⟨?_, ?_⟩⟩
    · intro hid
      obtain ⟨i, hp, hi⟩ := hout.won_pending id hid
      have hfree : ((c.apply m).now.records i).state ≠ .free := by
        intro hfree
        rw [(hout.settles i).free, hp] at hfree
        cases hfree
      have hi' : ((c.apply m).now.records i).requestId = id :=
        (hout.settles i).requestId.trans hi
      refine ⟨i, hp, hi, hi', (hout.good.ended i hfree).mp ?_⟩
      rw [hi', hout.committed]
      exact mem_append_right _ hid
    · rintro ⟨i, hp, hi, hi', hboth⟩
      have hfree : ((c.apply m).now.records i).state ≠ .free := by
        rw [hboth.1]
        decide
      have hmem := (hout.good.ended i hfree).mpr hboth
      rw [hi', hout.committed] at hmem
      refine (mem_append.mp hmem).resolve_left fun hold => ?_
      rw [← hi] at hold
      have hu : (m.now.records i).Unresolved := .inl hp
      exact not_bothCommitted_of_unresolved hu ((h.ended i hu.ne_free).mp hold)

theorem status_step (h : m.Good) (c : Call) (hbound : m.now.nextRequest + c.begins < 2 ^ 64)
    {id : ℕ} (hid : id ≠ 0) (hle : id ≤ m.now.nextRequest) (hret : Retained (c.apply m) id) :
    Retained m id ∧ (requestStatus m.now.records id ≠ .pending →
      requestStatus (c.apply m).now.records id = requestStatus m.now.records id) := by
  obtain ⟨i, hi, hfree⟩ := hret
  have hkept : (c.apply m).Good ∧ (m.now.records i).Settles ((c.apply m).now.records i) := by
    by_cases hc : c = .begin
    · subst hc
      obtain ⟨hgood, -, -, hopens⟩ := begin_spec h hbound
      refine ⟨hgood, ?_⟩
      rcases hopens with hsame | ⟨j, inherited, hupd, -⟩
      · exact (congrFun hsame i) ▸ .refl _
      · by_cases hij : i = j
        · subst hij
          have hnew : ((Call.begin.apply m).now.records i).requestId = m.now.nextRequest + 1 := by
            refine (congrArg (fun rs => (rs i).requestId) hupd).trans ?_
            simp [Record.opened]
          omega
        · have hsame : (Call.begin.apply m).now.records i = m.now.records i := by
            refine (congrFun hupd i).trans ?_
            exact Function.update_of_ne hij _ _
          exact hsame ▸ .refl _
    · obtain ⟨gone, won, hout, -⟩ := call_outcome h hc
      exact ⟨hout.good, hout.settles i⟩
  obtain ⟨hgood, hset⟩ := hkept
  have hi₀ : (m.now.records i).requestId = id := hset.requestId.symm.trans hi
  have hfree₀ : (m.now.records i).state ≠ .free := fun hf => hfree (hset.free.mpr hf)
  refine ⟨⟨i, hi₀, hfree₀⟩, ?_⟩
  have hfind₀ := requestFind_of_good h hi₀ hfree₀
  have hfind := requestFind_of_good hgood hi hfree
  simp only [requestStatus, if_neg hid, hfind₀, hfind]
  intro hne
  have hp : (m.now.records i).state ≠ .pending := by
    intro hp
    rw [if_pos hp] at hne
    exact hne rfl
  obtain ⟨hp', hres⟩ := hset.pending hp
  rw [if_neg hp, if_neg hp', hres]

theorem status_run {calls post : List Call} (hbound : begins (calls ++ post) < 2 ^ 64) {id : ℕ}
    (hret : Retained (run start calls) id) (hret' : Retained (run start (calls ++ post)) id)
    (hne : requestStatus (run start calls).now.records id ≠ .pending) :
    requestStatus (run start (calls ++ post)).now.records id =
      requestStatus (run start calls).now.records id := by
  induction post using List.reverseRecOn with
  | nil => rw [append_nil]
  | append_singleton post c ih =>
    rw [← append_assoc] at hbound hret' ⊢
    rw [begins_append] at hbound
    have hsound := good_run (calls ++ post) (by omega)
    have hfirst := good_run calls (by rw [begins_append] at hbound; omega)
    obtain ⟨i, hi, hfree⟩ := hret
    obtain ⟨hpos, hle⟩ := hfirst.good.ids i hfree
    rw [hi] at hpos hle
    have hle' : id ≤ (run start (calls ++ post)).now.nextRequest := by
      rw [hsound.nextRequest, begins_append]
      rw [hfirst.nextRequest] at hle
      omega
    rw [run_concat] at hret' ⊢
    have hc : begins [c] = c.begins := by simp [begins]
    obtain ⟨hback, hkeep⟩ := status_step hsound.good c
      (by rw [hsound.nextRequest, ← hc]; exact hbound) (by omega) hle' hret'
    have hsame := ih (by omega) hback
    rw [hkeep (hsame ▸ hne), hsame]

theorem committed_of_generation (h : m.Good) (hbound : m.now.nextRequest < 2 ^ 64)
    {x y : Instant} (hx : x ∈ m.timeline) (hy : y ∈ m.timeline)
    (hg : x.generation = y.generation) : x.committed.length = y.committed.length := by
  have hmax : ∀ z ∈ m.timeline, z.committed.length ≤ m.now.committed.length := by
    intro z hz
    rcases mem_cons.mp hz with rfl | hz
    · exact le_refl _
    · exact (pairwise_cons.mp h.growing).1 z hz
  have hlen := h.budget
  have hxl := hmax x hx
  have hyl := hmax y hy
  rw [(h.covered x hx).generation, (h.covered y hy).generation] at hg
  omega

theorem frame_current (h : m.Good) (hbound : m.now.nextRequest < 2 ^ 64) {g t₂ t₃ t₄ : ℕ}
    {x₁ x₂ x₃ x₄ : Instant} (h₂₃ : t₂ ≤ t₃) (h₃₄ : t₃ ≤ t₄)
    (hx₂ : m.history[t₂]? = some x₂) (hx₃ : m.history[t₃]? = some x₃)
    (hx₄ : m.history[t₄]? = some x₄) (hcur : frameIsCurrent g x₁ x₂ x₃ x₄ = true) :
    x₃.generation = g ∧ ∀ i, (x₃.records i).Unresolved →
      (x₃.records i).requestId ∉ x₃.returned := by
  have hload : x₂.generation = g ∧ x₃.unresolvedCount = 0 ∧ x₄.generation = g := by
    unfold frameIsCurrent at hcur
    split_ifs at hcur with h₁ h₂ h₃
    rw [not_not] at h₂ h₃
    exact ⟨h₂.symm, h₃, (of_decide_eq_true hcur).symm⟩
  obtain ⟨hg₂, hzero, hg₄⟩ := hload
  have hmem : ∀ {t : ℕ} {x : Instant}, m.history[t]? = some x → x ∈ m.timeline := fun hx =>
    mem_reverse.mp (mem_of_getElem? hx)
  have hgrow : m.history.Pairwise fun x y => x.committed.length ≤ y.committed.length :=
    pairwise_reverse.mpr h.growing
  have hmono : ∀ {s t : ℕ} {x y : Instant}, s ≤ t → m.history[s]? = some x →
      m.history[t]? = some y → x.committed.length ≤ y.committed.length := by
    intro s t x y hst hx hy
    obtain ⟨hs, rfl⟩ := List.getElem?_eq_some_iff.mp hx
    obtain ⟨ht, rfl⟩ := List.getElem?_eq_some_iff.mp hy
    rcases Nat.eq_or_lt_of_le hst with rfl | hlt
    · exact le_refl _
    · exact pairwise_iff_getElem.mp hgrow s t hs ht hlt
  have hsame := committed_of_generation h hbound (hmem hx₂) (hmem hx₄) (hg₂.trans hg₄.symm)
  have hlow := hmono h₂₃ hx₂ hx₃
  have hhigh := hmono h₃₄ hx₃ hx₄
  have hcov := h.covered x₃ (hmem hx₃)
  refine ⟨?_, ?_⟩
  · rw [← hg₂, hcov.generation, (h.covered x₂ (hmem hx₂)).generation]
    congr 2
    omega
  · intro i hu hret
    have hgate := hcov.gate
    rw [hzero] at hgate
    have hnone : number (Record.Open x₃.returned) x₃.records = 0 := by omega
    exact number_eq_zero hnone i ⟨hu, hret⟩

/-- The gate of the tuning requests, over every run that begins fewer than `2 ^ 64` requests. -/
theorem request_gate (calls : List Call) (hbound : begins calls < 2 ^ 64) : RequestGate calls := by
  have hsound := good_run _ hbound
  have hnext : (run start calls).now.nextRequest < 2 ^ 64 := by
    rw [hsound.nextRequest]
    exact hbound
  refine
    { count := hsound.good.count
      generation := ⟨hsound.good.timed.now_covered.generation, hsound.good.nodup⟩
      advance := ?_, status := ?_, failure := ?_, frame := ?_ }
  · rintro pre c rfl
    rw [begins_append] at hbound
    have hpre := good_run pre (by omega)
    rw [run_concat]
    apply advance_step hpre.good
    rw [hpre.nextRequest]
    simpa [begins] using hbound
  · rintro pre post rfl id hret hret' hne
    exact status_run hbound hret hret' hne
  · rintro ⟨f, hf⟩ hzero
    obtain ⟨-, i, hc⟩ := hsound.carries f hf
    have hu : ((run start calls).now.records i).Unresolved := by
      rcases hc with ⟨hst, -⟩ | ⟨hu, -⟩
      · exact .inr hst
      · exact hu
    have hcount := hsound.good.count
    rw [hzero] at hcount
    exact number_pos hu (by exact_mod_cast hcount.symm)
  · intro g t₁ t₂ t₃ t₄ x₁ x₂ x₃ x₄ h₁₂ h₂₃ h₃₄ hx₁ hx₂ hx₃ hx₄ hcur
    obtain ⟨hg, hnone⟩ := frame_current hsound.good hnext h₂₃ h₃₄ hx₂ hx₃ hx₄ hcur
    exact ⟨t₃, x₃, h₁₂.trans h₂₃, h₃₄, hx₃, hg, hnone⟩

/-- A request that succeeds after one that failed. -/
theorem request_gate_two :
    RequestGate [.begin, .publish 1 .failed 5, .begin, .publish 2 .ok 9, .markReady 2] :=
  request_gate _ (by decide)

end DsdNeo.Tuning
