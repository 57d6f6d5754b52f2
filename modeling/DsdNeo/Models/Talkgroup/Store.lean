import DsdNeo.Core.Version.Counter
import DsdNeo.Models.Talkgroup.Entry

/-!
# Policy stores

`dsd_tg_policy_store`: the table of rows with its generation, the session avoids, the
call skips and the active calls, under the identity by which versions name the
table. The functions here work on one store; allocation and the stores of a process
are in `Policy`.
-/

namespace DsdNeo.TgPolicy

/-- `dsd_tg_policy_table`. -/
structure Table where
  entries : List Entry
  capacity : ℕ
  generation : BitVec 32

/-- `dsd_tg_policy_active_call`. -/
structure ActiveCall where
  valid : BitVec 8
  tg : BitVec 32
  src : BitVec 32
  freqHz : ℤ
  channel : ℤ
  priority : ℤ
  privateCall : ℤ
  slot : ℤ
  startMonoS : Float
  lastSeenMonoS : Float
  lastPreemptMonoS : Float

/-- A cleared call. -/
def ActiveCall.zero : ActiveCall := ⟨0, 0, 0, 0, 0, 0, 0, 0, 0, 0, 0⟩

/-- `dsd_tg_policy_active_table`. -/
structure ActiveTable where
  calls : Vector ActiveCall 2
  lastGlobalPreemptMonoS : Float
  generation : BitVec 32

/-- A cleared table of calls. -/
def ActiveTable.zero : ActiveTable := ⟨Vector.replicate 2 ActiveCall.zero, 0, 0⟩

/-- One call skip, with its times. -/
structure CallSkipOf (T : Type) where
  id : BitVec 32
  src : BitVec 32
  armedM : T
  lastSeenM : T
  fallback : BitVec 8

/-- A cleared skip. -/
def CallSkipOf.zero {T : Type} [OfNat T 0] : CallSkipOf T := ⟨0, 0, 0, 0, 0⟩

/-- `DSD_TG_CALL_SKIP_MAX`. -/
def callSkipMax : ℕ := 8

/-- The ledger of call skips. -/
structure CallSkipsOf (T : Type) where
  entries : Vector (CallSkipOf T) 8
  count : ℕ

/-- An empty ledger. -/
def CallSkipsOf.zero {T : Type} [OfNat T 0] : CallSkipsOf T :=
  ⟨Vector.replicate 8 CallSkipOf.zero, 0⟩

/-- The ledger of a store, in seconds of its clock. -/
abbrev CallSkips := CallSkipsOf Float

/-- `dsd_tg_policy_store`, the session avoids as the list of those counted. -/
structure Store where
  table : Table
  sessionAvoids : List (BitVec 32)
  sessionAvoidCapacity : ℕ
  callSkips : CallSkips
  references : ℕ
  active : ActiveTable
  contextId : BitVec 64
  snapshotSourceContextId : BitVec 64
  snapshotParentContextId : BitVec 64

/-- What `tg_policy_context_alloc` hands out under a context id. -/
def Store.fresh (id : BitVec 64) : Store where
  table := ⟨[], 0, 0⟩
  sessionAvoids := []
  sessionAvoidCapacity := 0
  callSkips := CallSkipsOf.zero
  references := 1
  active := ActiveTable.zero
  contextId := id
  snapshotSourceContextId := id
  snapshotParentContextId := 0

/-- The rows of a store. -/
abbrev Store.rows (s : Store) : List Entry := s.table.entries

/-- A store with other rows. -/
def Store.withRows (s : Store) (rows : List Entry) : Store :=
  { s with table := { s.table with entries := rows } }

/-- An index as the `int` the search functions return. -/
def asInt (i : ℕ) : ℤ := (BitVec.ofNat 32 i).toInt

/-- The first row with a property, minus one without such a row. -/
def findIdxFirst (p : Entry → Bool) (rows : List Entry) : ℤ :=
  match rows.findIdx? p with
  | some i => asInt i
  | none => -1

/-- `tg_policy_find_policy_exact_idx_first`. -/
def findPolicyExactIdxFirst (rows : List Entry) (id : BitVec 32) : ℤ :=
  findIdxFirst (fun e => e.isRange = 0 && e.idStart = id && e.idEnd = id) rows

/-- `tg_policy_find_bounds_idx_first`. -/
def findBoundsIdxFirst (rows : List Entry) (idStart idEnd : BitVec 32) : ℤ :=
  findIdxFirst (fun e => e.idStart = idStart && e.idEnd = idEnd) rows

/-- `tg_policy_lookup_exact_in_ctx`. -/
def lookupExact (rows : List Entry) (id : BitVec 32) : Option Entry :=
  rows.find? fun e => e.isRange = 0 && e.idStart = id && e.idEnd = id

/-- The loop of `tg_policy_find_best_range_idx`, from row `i` on. -/
def bestRangeLoop (id : BitVec 32) : List Entry → ℕ → ℤ → ℕ → ℤ
  | [], _, bestIdx, _ => bestIdx
  | e :: rows, i, bestIdx, bestSpan =>
    if e.isRange = 0 ∨ id < e.idStart ∨ id > e.idEnd then bestRangeLoop id rows
      (i + 1) bestIdx bestSpan
    else
      let span := e.idEnd.toNat - e.idStart.toNat
      if bestIdx < 0 ∨ span < bestSpan ∨ (span = bestSpan ∧ asInt i > bestIdx) then
        bestRangeLoop id rows (i + 1) (asInt i) span
      else bestRangeLoop id rows (i + 1) bestIdx bestSpan

/-- `tg_policy_find_best_range_idx`. -/
def findBestRangeIdx (rows : List Entry) (id : BitVec 32) : ℤ :=
  bestRangeLoop id rows 0 (-1) (2 ^ 64 - 1)

/-- The row that sets the priority of an active call. -/
def governingRow (rows : List Entry) (call : ActiveCall) : Option Entry :=
  match lookupExact rows call.tg with
  | some e => some e
  | none =>
    if call.privateCall ≠ 0 then lookupExact rows call.src
    else
      let range := findBestRangeIdx rows call.tg
      if range ≥ 0 then rows[range.toNat]? else none

/-- `tg_policy_refresh_active_priorities`. -/
def refreshActivePriorities (s : Store) : Store :=
  { s with active := { s.active with
      calls := s.active.calls.map fun call =>
        if call.valid = 0 then call
        else
          { call with priority := match governingRow s.rows call with
              | some e => e.priority
              | none => 0 } } }

/-- `tg_policy_table_note_mutation`. -/
def noteMutation (s : Store) : Store :=
  refreshActivePriorities
    { s with table := { s.table with generation := Version.bump s.table.generation } }

/-- The loop of `tg_policy_avoid_lower_bound`. -/
def avoidLowerBoundLoop (ids : List (BitVec 32)) (id : BitVec 32) : ℕ → ℕ → ℕ → ℕ
  | 0, lo, _ => lo
  | fuel + 1, lo, hi =>
    if lo < hi then
      let mid := lo + (hi - lo) / 2
      if ids.getD mid 0 < id then avoidLowerBoundLoop ids id fuel (mid + 1) hi
      else avoidLowerBoundLoop ids id fuel lo mid
    else lo

/-- `tg_policy_avoid_lower_bound`; every round of its loop shrinks the interval. -/
def avoidLowerBound (ids : List (BitVec 32)) (id : BitVec 32) : ℕ :=
  avoidLowerBoundLoop ids id ids.length 0 ids.length

/-- The identifier put in at an index. -/
def avoidInsert (s : Store) (index : ℕ) (id : BitVec 32) : Store :=
  { s with sessionAvoids := s.sessionAvoids.take index ++ id :: s.sessionAvoids.drop index }

section Skips

variable {T : Type} [OfNat T 0]

/-- The skip at an index. -/
def CallSkipsOf.get (skips : CallSkipsOf T) (i : ℕ) : CallSkipOf T :=
  skips.entries.toList.getD i CallSkipOf.zero

/-- The loop of `dsd_tg_policy_call_skip_arm`: where it stops, and the stalest skip passed. -/
def armLoop [LT T] [DecidableLT T] (skips : CallSkipsOf T) (id : BitVec 32) : ℕ → ℕ → ℕ → ℕ × ℕ
  | 0, index, stalest => (index, stalest)
  | left + 1, index, stalest =>
    if (skips.get index).id = id then (index, stalest)
    else
      armLoop skips id left (index + 1)
        (if (skips.get index).lastSeenM < (skips.get stalest).lastSeenM then index else stalest)

/-- The edit of `dsd_tg_policy_call_skip_arm`. -/
def callSkipArmed [LT T] [DecidableLT T] (skips : CallSkipsOf T) (id src : BitVec 32) (fallback : ℤ)
    (now : T) : CallSkipsOf T :=
  let (index, stalest) := armLoop skips id skips.count 0 0
  let full := index = skips.count ∧ index = callSkipMax
  { entries := skips.entries.setIfInBounds (if full then stalest else index)
      ⟨id, src, now, now, if fallback ≠ 0 then 1 else 0⟩
    count := if index = skips.count ∧ ¬ full then skips.count + 1 else skips.count }

/-- `tg_policy_call_skip_fresh`. -/
def callSkipFresh [Sub T] [LE T] [DecidableLE T] [OfScientific T] (skip : CallSkipOf T) (now : T) :
    Bool :=
  let seen := if skip.fallback ≠ 0 then skip.armedM else skip.lastSeenM
  now - skip.armedM <= 600.0 && now - seen <= 15.0

/-- The first of the skips counted that has an identifier. -/
def callSkipFind (skips : CallSkipsOf T) (id : BitVec 32) : Option ℕ :=
  (List.range skips.count).find? fun i => (skips.get i).id = id

/-- `dsd_tg_policy_call_skip_active`. -/
def callSkipActive [Sub T] [LE T] [DecidableLE T] [OfScientific T] (skips : CallSkipsOf T)
    (id : BitVec 32) (now : T) : Bool :=
  if id = 0 then false
  else match callSkipFind skips id with
    | some i => callSkipFresh (skips.get i) now
    | none => false

/-- The edit of `dsd_tg_policy_call_skip_touch`, with its result. -/
def callSkipTouched [Sub T] [LE T] [DecidableLE T] [OfScientific T] (skips : CallSkipsOf T)
    (id : BitVec 32) (now : T) : ℤ × CallSkipsOf T :=
  match callSkipFind skips id with
  | none => (0, skips)
  | some i =>
    if callSkipFresh (skips.get i) now = false then
      (0, { entries := skips.entries.setIfInBounds i (skips.get (skips.count - 1))
            count := skips.count - 1 })
    else if (skips.get i).fallback ≠ 0 then (0, skips)
    else
      (1, { skips with
        entries := skips.entries.setIfInBounds i { skips.get i with lastSeenM := now } })

end Skips

/-- `dsd_tg_policy_call_route`. -/
structure CallRoute where
  targetId : BitVec 32
  sourceId : BitVec 32
  freqHz : ℤ
  channel : ℤ
  slot : ℤ

/-- What noting a call reads of `dsd_tg_policy_decision`. -/
structure Decision where
  priority : ℤ
  privateCall : ℤ
  preemptRequested : ℤ

/-- `tg_policy_route_is_complete`. -/
def routeIsComplete (route : CallRoute) : Bool :=
  (route.slot = -1 || route.slot = 0 || route.slot = 1) &&
    !(decide (route.channel ≤ 0) && decide (route.freqHz ≤ 0))

/-- `tg_policy_active_call_matches_route`. -/
def activeCallMatchesRoute (c : ActiveCall) (route : CallRoute) : Bool :=
  c.valid ≠ 0 && c.tg = route.targetId && c.channel = route.channel && c.slot = route.slot

/-- `tg_policy_should_note_preempt`. -/
def shouldNotePreempt (c : ActiveCall) (route : CallRoute) (decision : Decision) : Bool :=
  !activeCallMatchesRoute c route &&
    (decision.preemptRequested ≠ 0 && decide (decision.priority > c.priority))

/-- `tg_policy_note_active_slot`. -/
def noteActiveSlot (active : ActiveTable) (slot : Fin 2) (route : CallRoute) (decision : Decision)
    (now : Float) : ActiveTable :=
  let c := active.calls[slot]
  let preempts := shouldNotePreempt c route decision
  let restarts := !activeCallMatchesRoute c route
  { active with
    calls := active.calls.set slot
      { valid := 1, tg := route.targetId, src := route.sourceId, freqHz := route.freqHz
        channel := route.channel, priority := decision.priority
        privateCall := decision.privateCall, slot := route.slot
        startMonoS := if restarts then now else c.startMonoS
        lastSeenMonoS := now
        lastPreemptMonoS := if preempts then now else c.lastPreemptMonoS }
    lastGlobalPreemptMonoS := if preempts then now else active.lastGlobalPreemptMonoS }

/-- The edit of `dsd_tg_policy_note_active_call`. -/
def activeNoted (active : ActiveTable) (route : CallRoute) (decision : Decision) (now : Float) :
    ActiveTable :=
  if route.slot = -1 then
    noteActiveSlot (noteActiveSlot active 0 route decision now) 1 route decision now
  else noteActiveSlot active (if route.slot = 1 then 1 else 0) route decision now

/-- The edit of `dsd_tg_policy_clear_active_call`. -/
def activeCleared (active : ActiveTable) (slot : ℤ) : ActiveTable :=
  if slot < 0 then { active with calls := Vector.replicate 2 ActiveCall.zero }
  else { active with calls := active.calls.setIfInBounds slot.toNat ActiveCall.zero }

/-- `dsd_tg_policy_selection`. -/
structure Selection where
  policyIndex : ℤ
  idStart : BitVec 32
  idEnd : BitVec 32

/-- Sort keys of a selection: heard-only identifiers beyond every index. -/
def selectionKey (item : Selection) : ℕ :=
  if item.policyIndex ≥ 0 then item.policyIndex.toNat else 2 ^ 63 ||| item.idStart.toNat

/-- Whether neighbours repeat. -/
def repeats : List ℕ → Bool
  | a :: b :: keys => a == b || repeats (b :: keys)
  | _ => false

/-- The mode a bulk edit sets. -/
def listeningMode (listening : ℤ) : CString := if listening ≠ 0 then modeA else modeB

/-- `prepare_selection_entry`: the rows with one item applied, or nothing for an invalid one.
The rows before the edit are `live`, those made so far `entries`. -/
def prepareSelectionEntry (live entries : List Entry) (item : Selection) (listening : ℤ) :
    Option (List Entry) :=
  if item.idStart = 0 ∨ item.idStart > item.idEnd ∨ item.policyIndex < -1 then none
  else if item.policyIndex ≥ 0 then
    let row := item.policyIndex.toNat
    match entries[row]? with
    | none => none
    | some e =>
      if row ≥ live.length ∨ e.idStart ≠ item.idStart ∨ e.idEnd ≠ item.idEnd ∨ !rowEditable e then
        none
      else some (entries.set row (entryApplyMode e (listeningMode listening)))
  else if item.idStart ≠ item.idEnd then none
  else if findBoundsIdxFirst live item.idStart item.idEnd ≥ 0 then none
  else
    some (entries ++ [entryApplyMode (makeExactEntry item.idStart modeA emptyText sourceUserLockout)
      (listeningMode listening)])

/-- Every item applied in turn. -/
def prepareSelection (live : List Entry) (listening : ℤ) :
    List Selection → List Entry → Option (List Entry)
  | [], entries => some entries
  | item :: items, entries =>
    match prepareSelectionEntry live entries item listening with
    | none => none
    | some entries => prepareSelection live listening items entries

end DsdNeo.TgPolicy
