import DsdNeo.Models.Talkgroup.Decisions

/-!
# The row that names an identifier

The first exact row comes first, then the narrowest range, the last of equally narrow ones. What a
decision reports as the priority of a call is the priority of that row, and a refresh of the active
calls finds the same one.
-/

namespace DsdNeo.TgPolicy

open Search List

/-- A row of this identifier alone. -/
def Entry.Exactly (e : Entry) (id : BitVec 32) : Prop :=
  e.isRange = 0 ∧ e.idStart = id ∧ e.idEnd = id

/-- A range the identifier lies in. -/
def Entry.Around (e : Entry) (id : BitVec 32) : Prop :=
  e.isRange ≠ 0 ∧ e.idStart ≤ id ∧ id ≤ e.idEnd

/-- The identifiers of a range after its first. -/
def Entry.span (e : Entry) : ℕ := e.idEnd.toNat - e.idStart.toNat

/-- What looking up an identifier is to find: the first exact row, else the last of the narrowest
ranges around it, else nothing. -/
inductive Governs (rows : List Entry) (id : BitVec 32) : Lookup → Prop where
  | exact {i : ℕ} {e : Entry} : rows[i]? = some e → e.Exactly id →
      (∀ (j : ℕ) e', j < i → rows[j]? = some e' → ¬e'.Exactly id) → Governs rows id ⟨.exact, e⟩
  | range {i : ℕ} {e : Entry} : (∀ e' ∈ rows, ¬e'.Exactly id) →
      LastLeast (Entry.Around · id) Entry.span rows i e → Governs rows id ⟨.range, e⟩
  | none : (∀ e ∈ rows, ¬e.Exactly id ∧ ¬e.Around id) → Governs rows id ⟨.none, Entry.zero⟩

theorem exactly_iff (e : Entry) (id : BitVec 32) :
    (e.isRange = 0 && e.idStart = id && e.idEnd = id) = true ↔ e.Exactly id := by
  simp [Entry.Exactly, and_assoc]

theorem not_around_iff (e : Entry) (id : BitVec 32) :
    (e.isRange = 0 ∨ id < e.idStart ∨ id > e.idEnd) ↔ ¬e.Around id := by
  simp only [Entry.Around, not_and_or, ne_eq, not_not, BitVec.not_le, gt_iff_lt]

variable {id : BitVec 32} {rows : List Entry}

theorem lookupExact_none (h : lookupExact rows id = none) : ∀ e ∈ rows, ¬e.Exactly id := by
  intro e he hexact
  exact find?_eq_none.mp h e he ((exactly_iff e id).mpr hexact)

theorem lookupExact_some {e : Entry} (h : lookupExact rows id = some e) :
    ∃ i : ℕ, rows[i]? = some e ∧ e.Exactly id ∧
      ∀ (j : ℕ) e', j < i → rows[j]? = some e' → ¬e'.Exactly id := by
  obtain ⟨hexact, i, hi, hget, hfirst⟩ := find?_eq_some_iff_getElem.mp h
  refine ⟨i, ?_, (exactly_iff e id).mp hexact, fun j e' hj he' hexact' => ?_⟩
  · rw [getElem?_eq_getElem hi, hget]
  · have hlt := (List.getElem?_eq_some_iff.mp he').1
    have hno := hfirst j hj
    rw [getElem?_eq_getElem hlt] at he'
    rw [Option.some.inj he', (exactly_iff e' id).mpr hexact'] at hno
    exact absurd hno (by decide)

/-- What the scan for a range holds after the rows it has passed. -/
def Scanned (id : BitVec 32) (rows : List Entry) (bestIdx : ℤ) (bestSpan : ℕ) : Prop :=
  (bestIdx = -1 ∧ ∀ e ∈ rows, ¬e.Around id) ∨
    ∃ (k : ℕ) (e : Entry), bestIdx = k ∧ bestSpan = e.span ∧
      LastLeast (Entry.Around · id) Entry.span rows k e

/-- Up to `2 ^ 31` rows, an index is an `int`. -/
theorem asInt_eq {i : ℕ} (h : i < 2 ^ 31) : asInt i = i := by
  have hmod : (BitVec.ofNat 32 i).toNat = i := by
    rw [BitVec.toNat_ofNat, Nat.mod_eq_of_lt (by omega)]
  rw [asInt, BitVec.toInt_eq_toNat_cond, hmod, if_pos (by omega)]

variable {bestSpan : ℕ} {bestIdx : ℤ}

theorem Scanned.skip (h : Scanned id rows bestIdx bestSpan) {e : Entry} (he : ¬e.Around id) :
    Scanned id (rows ++ [e]) bestIdx bestSpan := by
  rcases h with ⟨hidx, hnone⟩ | ⟨k, best, hidx, hspan, hbest⟩
  · refine Or.inl ⟨hidx, fun e' he' => ?_⟩
    rcases mem_append.mp he' with hold | hlast
    · exact hnone e' hold
    · rwa [mem_singleton.mp hlast]
  · exact Or.inr ⟨k, best, hidx, hspan, hbest.keep fun h => absurd h he⟩

/-- One round of the scan. -/
theorem Scanned.next (h : Scanned id rows bestIdx bestSpan) (hlen : rows.length < 2 ^ 31)
    {e : Entry} (he : e.Around id) :
    if bestIdx < 0 ∨ e.span < bestSpan ∨ (e.span = bestSpan ∧ asInt rows.length > bestIdx) then
      Scanned id (rows ++ [e]) (asInt rows.length) e.span
    else Scanned id (rows ++ [e]) bestIdx bestSpan := by
  have htake : (∀ e' ∈ rows, e'.Around id → e.span ≤ e'.span) →
      Scanned id (rows ++ [e]) (asInt rows.length) e.span :=
    fun hle => Or.inr ⟨rows.length, e, asInt_eq hlen, rfl, LastLeast.take he hle⟩
  rcases h with ⟨hidx, hnone⟩ | ⟨k, best, hidx, hspan, hbest⟩
  · rw [if_pos (Or.inl (by omega))]
    exact htake fun e' he' haround => absurd haround (hnone e' he')
  · have hk := hbest.lt_length
    split
    · rename_i hbetter
      refine htake fun e' he' haround => ?_
      have hle := hbest.le_of_mem he' haround
      omega
    · rename_i hworse
      rw [asInt_eq hlen] at hworse
      refine Or.inr ⟨k, best, hidx, hspan, hbest.keep fun _ => ?_⟩
      omega

/-- The scan over the rows that are left. -/
theorem Scanned.loop {rest : List Entry} (h : Scanned id rows bestIdx bestSpan)
    (hlen : rows.length + rest.length ≤ 2 ^ 31) :
    ∃ span, Scanned id (rows ++ rest)
      (bestRangeLoop id rest rows.length bestIdx bestSpan) span := by
  induction rest generalizing rows bestIdx bestSpan with
  | nil => exact ⟨bestSpan, by rwa [append_nil]⟩
  | cons e rest ih =>
    rw [length_cons] at hlen
    have hsnoc : rows.length + 1 = (rows ++ [e]).length := by simp
    have hmore : (rows ++ [e]).length + rest.length ≤ 2 ^ 31 := by omega
    have happ : rows ++ e :: rest = rows ++ [e] ++ rest := by simp
    rw [happ, bestRangeLoop, hsnoc]
    by_cases he : e.Around id
    · rw [if_neg fun hnot => (not_around_iff e id).mp hnot he]
      have hnext := h.next (by omega) he
      rw [Entry.span] at hnext
      dsimp only
      split
      · rename_i htaken
        rw [if_pos htaken] at hnext
        exact ih hnext hmore
      · rename_i hkept
        rw [if_neg hkept] at hnext
        exact ih hnext hmore
    · rw [if_pos ((not_around_iff e id).mpr he)]
      exact ih (h.skip he) hmore

theorem findBestRangeIdx_scanned (rows : List Entry) (id : BitVec 32) (h : rows.length ≤ 2 ^ 31) :
    ∃ span, Scanned id rows (findBestRangeIdx rows id) span := by
  have hstart : Scanned id [] (-1) (2 ^ 64 - 1) :=
    Or.inl ⟨rfl, fun _ he => absurd he not_mem_nil⟩
  have hlen : ([] : List Entry).length + rows.length ≤ 2 ^ 31 := by
    rwa [length_nil, Nat.zero_add]
  exact hstart.loop hlen

theorem lookupId_governs (h : rows.length ≤ 2 ^ 31) (id : BitVec 32) :
    Governs rows id (lookupId rows id) := by
  rw [lookupId]
  cases hexact : lookupExact rows id with
  | some e =>
    obtain ⟨i, hget, he, hfirst⟩ := lookupExact_some hexact
    exact Governs.exact hget he hfirst
  | none =>
    have hnone := lookupExact_none hexact
    obtain ⟨span, ⟨hidx, haround⟩ | ⟨k, e, hidx, -, hbest⟩⟩ := findBestRangeIdx_scanned rows id h
    · dsimp only
      rw [hidx, if_neg (by decide)]
      exact Governs.none fun e he => ⟨hnone e he, haround e he⟩
    · dsimp only
      rw [hidx, if_pos (by omega), Int.toNat_natCast, getD_eq_getElem?_getD, hbest.get]
      exact Governs.range hnone hbest

/-- Rows around which no identifier lies are passed by. -/
theorem bestRangeLoop_append (h : ∀ e ∈ rows, ¬e.Around id) (rest : List Entry) (i : ℕ)
    (bestIdx : ℤ) (bestSpan : ℕ) :
    bestRangeLoop id (rows ++ rest) i bestIdx bestSpan =
      bestRangeLoop id rest (i + rows.length) bestIdx bestSpan := by
  induction rows generalizing i with
  | nil => rfl
  | cons e rows ih =>
    have he := h e mem_cons_self
    rw [cons_append, bestRangeLoop, if_pos ((not_around_iff e id).mpr he),
      ih fun e' he' => h e' (mem_cons_of_mem _ he'), length_cons]
    congr 1
    omega

/-- A range behind so many rows that its index turns negative is not found. -/
theorem lookupId_negative {r : Entry} (hindex : asInt rows.length < 0)
    (hrows : ∀ e ∈ rows, ¬e.Exactly id ∧ ¬e.Around id) (hr : r.Around id) :
    lookupId (rows ++ [r]) id = ⟨.none, Entry.zero⟩ := by
  have hexact : lookupExact (rows ++ [r]) id = none := by
    refine find?_eq_none.mpr fun e he => ?_
    rw [exactly_iff]
    rcases mem_append.mp he with hold | hlast
    · exact (hrows e hold).1
    · rw [mem_singleton.mp hlast]
      exact fun h => hr.1 h.1
  have hbest : findBestRangeIdx (rows ++ [r]) id = asInt rows.length := by
    rw [findBestRangeIdx, bestRangeLoop_append fun e he => (hrows e he).2, Nat.zero_add,
      bestRangeLoop, if_neg fun h => (not_around_iff r id).mp h hr]
    dsimp only
    rw [if_pos (Or.inl (by decide)), bestRangeLoop]
  rw [lookupId, hexact]
  dsimp only
  rw [hbest, if_neg (by omega)]

/-- A row of talkgroup 1. -/
def rowOne : Entry := makeExactEntry 1 modeA emptyText 0

/-- A row of the talkgroups 1 to 9. -/
def rowsToNine : Entry := { rowOne with idEnd := 9, isRange := 1 }

/-- `2 ^ 31` rows of talkgroup 1, and the range 1 to 9 after them: talkgroup 5 is in the range and
is not found. -/
theorem lookupId_beyond_indexes : ¬∀ (rows : List Entry) (id : BitVec 32),
    Governs rows id (lookupId rows id) := by
  intro hall
  have hexact : ¬rowOne.Exactly 5 := by
    rw [← exactly_iff]
    decide
  have haround : ¬rowOne.Around 5 := fun h => h.1 rfl
  have hrange : rowsToNine.Around 5 := ⟨by decide, by decide, by decide⟩
  have hrows : ∀ e ∈ List.replicate (2 ^ 31) rowOne, ¬e.Exactly 5 ∧ ¬e.Around 5 := by
    intro e he
    rw [eq_of_mem_replicate he]
    exact ⟨hexact, haround⟩
  have hindex : asInt (List.replicate (2 ^ 31) rowOne).length < 0 := by
    rw [length_replicate]
    decide
  have hfound := hall (List.replicate (2 ^ 31) rowOne ++ [rowsToNine]) 5
  rw [lookupId_negative hindex hrows hrange] at hfound
  cases hfound with
  | none hnone => exact (hnone _ (mem_append_right _ (mem_singleton_self _))).2 hrange

/-- The priority of a row, zero without one. -/
def priorityOf (row : Option Entry) : ℤ := (row.map Entry.priority).getD 0

@[simp] theorem priority_blockTune (c : Bool) (d : CallDecision) (reason : BitVec 32) :
    (if c then blockDecisionTune d reason else d).priority = d.priority := by
  cases c <;> rfl

@[simp] theorem priority_blockTuneAndMedia (c : Bool) (d : CallDecision) (reason : BitVec 32) :
    (if c then blockDecisionTuneAndMedia d reason else d).priority = d.priority := by
  cases c <;> rfl

@[simp] theorem priority_media (c : Bool) (d : CallDecision) (audio record stream : Bool) :
    (if c then applyExplicitMediaBlocks d audio record stream else d).priority = d.priority := by
  cases c <;> cases audio <;> cases record <;> cases stream <;> rfl

theorem Closing.priority (c : Closing) (d : CallDecision) : (c.apply d).priority = d.priority := by
  simp only [Closing.apply, priority_media, priority_blockTuneAndMedia]

section Reported

variable {T : Type} [OfNat T 0] [Sub T] [LE T] [DecidableLE T] [OfScientific T]

theorem evaluateGroupCall_priority (opts : Option TuneOpts) (state : TuneState T)
    (tg src : BitVec 32) (encrypted dataCall : Bool) :
    (evaluateGroupCall opts state tg src encrypted dataCall).priority =
      (groupApplyLookup state.rows tg (initDecision tg src encrypted dataCall)).1.priority := by
  rw [evaluateGroupCall_eq, Closing.priority, groupFront]
  simp only [applyEncLockoutBlock, applyGroupTuneBlocks, groupSetHoldState, priority_blockTune,
    matched_blockTune]

theorem evaluatePrivate_priority (opts : Option TuneOpts) (state : TuneState T)
    (src dst : BitVec 32)
    (encrypted dataCall allowUnlisted : Bool) :
    (evaluatePrivate opts state src dst encrypted dataCall allowUnlisted).priority =
      priorityOf (privateChosen state src dst) := by
  rw [evaluatePrivate_eq, Closing.priority, privateFront]
  simp only [applyEncLockoutBlock, applyPrivateTuneBlocks, privateSetHoldState, priority_blockTune]
  cases privateChosen state src dst <;> rfl

theorem lookupExactOnly_eq (rows : List Entry) (id : BitVec 32) :
    lookupExactOnly rows id = lookupExact rows id := by
  rw [lookupExactOnly, lookupId]
  cases lookupExact rows id with
  | some e => rfl
  | none =>
    dsimp only
    split
    · rfl
    · rfl

/-- The priority a decision reports for the target and the source of an active call. -/
def reportedPriority (opts : Option TuneOpts) (state : TuneState T) (call : ActiveCall)
    (encrypted dataCall : Bool) : ℤ :=
  if call.privateCall ≠ 0 then
    (evaluatePrivateCall opts state call.src call.tg encrypted dataCall).priority
  else (evaluateGroupCall opts state call.tg call.src encrypted dataCall).priority

theorem reportedPriority_eq (opts : Option TuneOpts) (state : TuneState T) (call : ActiveCall)
    (encrypted dataCall : Bool) :
    reportedPriority opts state call encrypted dataCall =
      priorityOf (governingRow state.rows call) := by
  rw [reportedPriority, governingRow]
  split
  · rw [evaluatePrivateCall, evaluatePrivate_priority, privateChosen, lookupExactOnly_eq,
      lookupExactOnly_eq]
    cases lookupExact state.rows call.tg <;> rfl
  · rw [evaluateGroupCall_priority, groupApplyLookup, lookupId]
    cases lookupExact state.rows call.tg with
    | some e => rfl
    | none =>
      dsimp only
      split
      · rename_i hfound
        rw [if_neg (by simp), priorityOf, getD_eq_getElem?_getD]
        cases state.rows[(findBestRangeIdx state.rows call.tg).toNat]? <;> rfl
      · rfl

end Reported

/-- The active calls of a store have the priorities of its table. -/
def Store.Refreshed (s : Store) : Prop :=
  ∀ call ∈ s.active.calls, call.valid ≠ 0 → call.priority = priorityOf (governingRow s.rows call)

theorem refreshActivePriorities_refreshed (s : Store) : (refreshActivePriorities s).Refreshed := by
  intro call hcall hvalid
  obtain ⟨old, -, hcall⟩ := Vector.mem_map.mp hcall
  by_cases hv : old.valid = 0
  · rw [if_pos hv] at hcall
    rw [← hcall] at hvalid
    exact absurd hv hvalid
  · rw [if_neg hv] at hcall
    have hrow : governingRow (refreshActivePriorities s).rows call = governingRow s.rows old := by
      rw [← hcall]
      rfl
    rw [hrow, ← hcall]
    cases governingRow s.rows old <;> rfl

theorem noteMutation_refreshed (s : Store) : (noteMutation s).Refreshed :=
  refreshActivePriorities_refreshed _

end DsdNeo.TgPolicy
