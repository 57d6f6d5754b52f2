import DsdNeo.Core.Program.Wp
import DsdNeo.Models.Talkgroup.Store

/-!
# The policy operations of a process

Decoder states hold a policy store or none, other code holds references to stores,
and each operation reads and edits them through allocations that may fail. The
outcomes of the allocations are read from a tape, the parsed rows of a group file
are an argument, and every operation runs without interruption.
-/

namespace DsdNeo.TgPolicy

/-- A decoder state, by its slot for the policy: those of the process, and the temporary
one a reload imports into. -/
inductive StateId where
  | app (n : ℕ)
  | imported
  deriving DecidableEq

/-- The stores of a process, by address, with the states and the other references to them. -/
structure World where
  heap : List Store
  nextContextId : BitVec 64
  slots : StateId → Option ℕ
  handles : List ℕ
  tape : List Bool

/-- A process at its start, with the outcomes of its allocations. -/
def World.init (tape : List Bool) : World := ⟨[], 1, fun _ => none, [], tape⟩

/-- Programs over the stores of a process. -/
abbrev Policy := StateM World

/-- Whether the next allocation succeeds. -/
def allocate : Policy Bool := fun w => (w.tape.headD true, { w with tape := w.tape.tail })

/-- `tg_policy_next_context_id`. -/
def nextContextId : Policy (BitVec 64) := fun w =>
  let id := if w.nextContextId = 0 then 1 else w.nextContextId
  (id, { w with nextContextId := id + 1 })

/-- A new store at the end of the heap. -/
def pushStore (s : Store) : Policy ℕ := fun w => (w.heap.length, { w with heap := w.heap ++ [s] })

/-- The store at an address. -/
def storeAt (a : ℕ) : Policy Store := fun w => (w.heap.getD a (Store.fresh 0), w)

/-- An edit of the store at an address. -/
def modifyStore (a : ℕ) (f : Store → Store) : Policy Unit := fun w =>
  ((), { w with heap := w.heap.modify a f })

/-- The store of a state. -/
def slotOf (s : StateId) : Policy (Option ℕ) := fun w => (w.slots s, w)

/-- A state given a store, or none. -/
def setSlot (s : StateId) (ptr : Option ℕ) : Policy Unit := fun w =>
  ((), { w with slots := Function.update w.slots s ptr })

/-- `tg_policy_context_alloc`. -/
def contextAlloc : Policy (Option ℕ) := do
  if ← allocate then
    let id ← nextContextId
    some <$> pushStore (Store.fresh id)
  else pure none

/-- `tg_policy_context_free`: one reference less. A store without references is not read
again. -/
def contextFree (a : ℕ) : Policy Unit :=
  modifyStore a fun s => { s with references := s.references - 1 }

/-- The store a slot gives up. -/
def freeReplaced (old ptr : Option ℕ) : Policy Unit :=
  match old with
  | some a => if ptr = some a then pure () else contextFree a
  | none => pure ()

/-- `dsd_state_ext_set` on the slot of the policy. -/
def extSet (s : StateId) (ptr : Option ℕ) : Policy Unit := do
  let old ← slotOf s
  freeReplaced old ptr
  setSlot s ptr

/-- A new store in a state. -/
def allocInto (s : StateId) : Policy (Option ℕ) := do
  match ← contextAlloc with
  | none => pure none
  | some a =>
    extSet s (some a)
    pure (some a)

/-- `tg_policy_ctx_get_mut`. -/
def ctxGetMut (s : StateId) (createIfMissing : Bool) : Policy (Option ℕ) := do
  match ← slotOf s with
  | some a => pure (some a)
  | none => if createIfMissing then allocInto s else pure none

/-- The rows of a store, none without one. -/
def rowsAt : Option ℕ → Policy (List Entry)
  | none => pure []
  | some a => do return (← storeAt a).rows

/-- The store of a state, as a value. -/
def World.storeOf (w : World) (s : StateId) : Option Store := (w.slots s).bind fun a => w.heap[a]?

/-- `dsd_tg_policy_table_version`. -/
def World.tableVersion (w : World) (s : StateId) : BitVec 64 × BitVec 32 :=
  match w.storeOf s with
  | some c => (c.snapshotSourceContextId, c.table.generation)
  | none => (0, 0)

/-- The doubling loop of `tg_policy_table_reserve`. -/
def growTarget : ℕ → ℕ → ℕ → ℕ
  | 0, target, _ => target
  | fuel + 1, target, needed =>
    if target < needed then growTarget fuel (target * 2) needed else target

/-- `tg_policy_table_reserve`. -/
def tableReserve (a needed : ℕ) : Policy Bool := do
  let s ← storeAt a
  if s.table.capacity ≥ needed then pure true
  else if ← allocate then
    let start := if s.table.capacity > 0 then s.table.capacity else 16
    modifyStore a fun s =>
      { s with table := { s.table with capacity := growTarget needed start needed } }
    pure true
  else pure false

/-- Rows replaced, as one mutation. -/
def editRows (a : ℕ) (edit : List Entry → List Entry) : Policy Unit :=
  modifyStore a fun s => noteMutation (s.withRows (edit s.rows))

/-- The row `dsd_tg_policy_store_append` stores. -/
def storedEntry (entry : Entry) : Entry :=
  let normalized := copyEntryNormalized entry
  if entry.isRange = 0 then { normalized with idEnd := normalized.idStart } else normalized

/-- `dsd_tg_policy_store_append`. -/
def storeAppend (a : ℕ) (entry : Entry) : Policy ℤ :=
  if !(if entry.isRange ≠ 0 then entryValidRange entry else entryValidExact entry) then pure 1
  else do
    let s ← storeAt a
    if ← tableReserve a (s.rows.length + 1) then
      editRows a (· ++ [storedEntry entry])
      pure 0
    else pure (-1)

/-- `dsd_tg_policy_add_range_entry`. -/
def addRangeEntry (s : StateId) (entry : Entry) : Policy ℤ :=
  if !entryValidRange entry then pure 1
  else do
    match ← ctxGetMut s true with
    | some a => storeAppend a entry
    | none => pure (-1)

/-- `dsd_tg_policy_append_exact`. -/
def appendExact (s : StateId) (entry : Entry) : Policy ℤ :=
  if !entryValidExact entry then pure 1
  else do
    match ← ctxGetMut s true with
    | some a => storeAppend a entry
    | none => pure (-1)

/-- `dsd_tg_policy_upsert_mode`. -/
inductive UpsertMode where
  | addIfMissing
  | replaceFirst
  | replaceLearnedOnly
  deriving DecidableEq

/-- `dsd_tg_policy_upsert_exact`. -/
def upsertExact (s : StateId) (entry : Entry) (mode : UpsertMode) : Policy ℤ :=
  if !entryValidExact entry then pure 1
  else do
    let copied := copyEntryNormalized entry
    let normalized := { copied with isRange := 0, idEnd := copied.idStart }
    let ctx ← ctxGetMut s (mode ≠ .addIfMissing)
    let rows ← rowsAt ctx
    let policyIdx := findPolicyExactIdxFirst rows normalized.idStart
    match mode, ctx with
    | .addIfMissing, _ => if policyIdx ≥ 0 then pure 0 else appendExact s normalized
    | _, none => pure (-1)
    | .replaceLearnedOnly, some a =>
      if policyIdx < 0 then pure 0
      else if (rows.getD policyIdx.toNat Entry.zero).source ≠ sourceRuntimeAlias then pure 0
      else do
        editRows a (·.set policyIdx.toNat normalized)
        pure 0
    | .replaceFirst, some a =>
      if policyIdx < 0 then appendExact s normalized
      else do
        editRows a (·.set policyIdx.toNat normalized)
        pure 0

/-- The row `dsd_tg_policy_set_mode` leaves: an explicit edit takes an alias over. -/
def modeEdited (e : Entry) (idStart idEnd : BitVec 32) (mode : CString) : Entry :=
  if idStart = idEnd ∧ (e.source = sourceRuntimeAlias ∨ e.mode.cstr = modeD) then
    makeExactEntry idStart mode emptyText sourceUserLockout
  else entryApplyMode e mode

/-- `dsd_tg_policy_set_mode`. -/
def setMode (s : StateId) (idStart idEnd : BitVec 32) (mode : CString) : Policy ℤ :=
  if !modeValid mode ∨ idStart > idEnd then pure 1
  else do
    match ← ctxGetMut s true with
    | none => pure (-1)
    | some a =>
      let rows := (← storeAt a).rows
      let index := findBoundsIdxFirst rows idStart idEnd
      if index ≥ 0 then
        editRows a (·.modify index.toNat (modeEdited · idStart idEnd mode))
        pure 0
      else if idStart ≠ idEnd then pure 1
      else storeAppend a (makeExactEntry idStart mode emptyText sourceUserLockout)

/-- `dsd_tg_policy_set_mode_at`. -/
def setModeAt (s : StateId) (index : ℕ) (mode : CString) : Policy ℤ := do
  let ctx ← ctxGetMut s false
  let rows ← rowsAt ctx
  match ctx with
  | none => pure 1
  | some a =>
    if index ≥ rows.length ∨ !modeValid mode then pure 1
    else
      editRows a (·.modify index (entryApplyMode · mode))
      pure 0

/-- All the fields `dsd_tg_policy_set_fields` knows. -/
def fieldsAll : BitVec 32 :=
    fieldListen ||| fieldPriority ||| fieldPreempt ||| fieldName ||| fieldTags

/-- The row `dsd_tg_policy_set_fields` starts a new one from. -/
def newFieldsEntry (idStart idEnd : BitVec 32) : Entry :=
  { makeExactEntry idStart modeA emptyText sourceUserLockout with
    idEnd := idEnd, isRange := if idStart ≠ idEnd then 1 else 0 }

/-- `dsd_tg_policy_set_fields`. -/
def setFields (s : StateId) (idStart idEnd : BitVec 32) (values : Entry) (mask : BitVec 32) :
    Policy ℤ :=
  if idStart > idEnd ∨ mask = 0 ∨ mask &&& ~~~fieldsAll ≠ 0 ∨ listenFieldsInvalid values mask ∨
      otherFieldsInvalid values mask then pure 1
  else do
    match ← ctxGetMut s true with
    | none => pure (-1)
    | some a =>
      let rows := (← storeAt a).rows
      let index := findBoundsIdxFirst rows idStart idEnd
      if index ≥ 0 then
        if !rowEditable (rows.getD index.toNat Entry.zero) then pure 1
        else
          editRows a (·.modify index.toNat (applyFields · values mask))
          pure 0
      else storeAppend a (applyFields (newFieldsEntry idStart idEnd) values mask)

/-- `dsd_tg_policy_remove_bounds`. -/
def removeBounds (s : StateId) (idStart idEnd : BitVec 32) : Policy ℤ := do
  let ctx ← ctxGetMut s false
  let rows ← rowsAt ctx
  match ctx with
  | none => pure 1
  | some a =>
    let index := findBoundsIdxFirst rows idStart idEnd
    if idStart > idEnd then pure 1
    else if index < 0 ∨ !rowEditable (rows.getD index.toNat Entry.zero) then pure 1
    else
      editRows a (·.eraseIdx index.toNat)
      pure 0

/-- `selection_has_duplicates`. -/
def selectionHasDuplicates (selection : List Selection) : Policy ℤ :=
  if selection.length > (2 ^ 64 - 1) / 8 then pure (-1)
  else do
    if ← allocate then
      pure (if repeats ((selection.map selectionKey).mergeSort (· ≤ ·)) then 1 else 0)
    else pure (-1)

/-- Bytes of a row. -/
def entrySize : ℕ := 132

/-- The context an edit goes to, a new one where the state has none. -/
def contextOrNew (s : StateId) : Option ℕ → Policy (Option ℕ)
  | some a => pure (some a)
  | none => allocInto s

/-- The swap at the end of `dsd_tg_policy_set_listening_selection`. -/
def publishRows (a : ℕ) (rows : List Entry) (capacity : ℕ) : Policy Unit :=
  modifyStore a fun s =>
    noteMutation { s with table := { s.table with entries := rows, capacity := capacity } }

/-- `dsd_tg_policy_set_listening_selection`. -/
def setListeningSelection (s : StateId) (context : BitVec 64) (generation : BitVec 32)
    (selection : List Selection) (listening : ℤ) : Policy ℤ := do
  let version ← fun w => (w.tableVersion s, w)
  if selection = [] ∨ ¬ (listening = 0 ∨ listening = 1) then pure 1
  else if version ≠ (context, generation) then pure 1
  else
    let ctx ← ctxGetMut s false
    let duplicates ← selectionHasDuplicates selection
    if duplicates ≠ 0 then pure duplicates
    else
      let rows ← rowsAt ctx
      if selection.length > (2 ^ 64 - 1) / entrySize - rows.length then pure (-1)
      else if ← allocate then
        match prepareSelection rows listening selection rows with
        | none => pure 1
        | some entries =>
          match ← contextOrNew s ctx with
          | none => pure (-1)
          | some a =>
            publishRows a entries (rows.length + selection.length)
            pure 0
      else pure (-1)

/-- The copy `tg_policy_context_clone` makes under its own identity. -/
def clonedFrom (src own : Store) : Store :=
  { own with
    table := {
      entries := src.rows, capacity := src.rows.length, generation := src.table.generation }
    active := src.active
    callSkips := src.callSkips
    sessionAvoids := src.sessionAvoids
    sessionAvoidCapacity := src.sessionAvoids.length
    snapshotSourceContextId := src.snapshotSourceContextId
    snapshotParentContextId := src.contextId }

/-- An allocation for a copy of a list, none for the empty one. -/
def allocateFor {α : Type} (xs : List α) : Policy Bool := if xs.isEmpty then pure true else allocate

/-- `tg_policy_context_clone` of a store: a clone that fails is freed before anyone sees it. -/
def contextClone (src : Store) : Policy (Option ℕ) := do
  match ← contextAlloc with
  | none => pure none
  | some c =>
    if !(← allocateFor src.sessionAvoids) then
      contextFree c
      pure none
    else if !(← allocateFor src.rows) then
      contextFree c
      pure none
    else
      modifyStore c (clonedFrom src)
      pure (some c)

/-- Whether `dsd_tg_policy_copy_snapshot` keeps the rows its destination has. -/
def sameVersion (d a : ℕ) (dst src : Store) : Bool :=
  d ≠ a && src.contextId ≠ 0 && dst.snapshotParentContextId ≠ 0 &&
    dst.snapshotParentContextId = src.contextId &&
    dst.table.generation = src.table.generation && dst.rows.length = src.rows.length

/-- The clone published in a state; one that shares the source gives it up unfreed. -/
def publishClone (dst : StateId) (dstCtx : Option ℕ) (a : ℕ) (src : Store) : Policy ℤ := do
  match ← contextClone src with
  | none => pure (-1)
  | some c =>
    if dstCtx = some a then setSlot dst none
    extSet dst (some c)
    pure 0

/-- `dsd_tg_policy_copy_snapshot`. -/
def copySnapshot (dst src : StateId) : Policy ℤ :=
  if dst = src then pure 0
  else do
    match ← slotOf src with
    | none =>
      extSet dst none
      pure 0
    | some a =>
      let srcStore ← storeAt a
      match ← slotOf dst with
      | none => publishClone dst none a srcStore
      | some d =>
        let dstStore ← storeAt d
        if sameVersion d a dstStore srcStore then
          modifyStore d fun s =>
            { s with active := srcStore.active, callSkips := srcStore.callSkips }
          pure 0
        else publishClone dst (some d) a srcStore

/-- The rows a group file parses to, each with the kind its identifier field has, and
whether reading it ended in an error. -/
structure GroupFile where
  rows : List (Entry × Bool)
  readError : Bool

/-- `csvGroupImportPath`: rows that cannot be stored are skipped. -/
def importRows : List (Entry × Bool) → Policy Unit
  | [] => pure ()
  | (entry, isRange) :: rows => do
    if isRange then
      let _ ← addRangeEntry .imported entry
      importRows rows
    else
      let _ ← appendExact .imported entry
      importRows rows

/-- `tg_policy_reload_validate_candidate`. -/
def reloadValidateCandidate (rows : List Entry) : Bool :=
  rows.all fun e => e.mode.terminated && e.name.terminated &&
    (if e.isRange = 0 then entryValidExact e else entryValidRange e)

/-- `dsd_state_ext_free_all` on the temporary state. -/
def freeImported : Policy Unit := extSet .imported none

/-- The imported store, a new one where no row was stored. -/
def importedOrNew : Option ℕ → Policy (Option ℕ)
  | some a => pure (some a)
  | none => contextAlloc

/-- A store given the generations after those of the store it replaces, and published. -/
def publishTable (s : StateId) (current : Option Store) (a : ℕ) : Policy Unit := do
  let next : BitVec 32 × BitVec 32 := match current with
    | some c => (c.table.generation + 1, c.active.generation + 1)
    | none => (1, 1)
  modifyStore a fun st =>
    { st with
      table := { st.table with generation := next.1 }
      active := { st.active with generation := next.2 } }
  extSet s (some a)

/-- `dsd_tg_policy_reload_group_file`, with what its file holds. -/
def reloadGroupFile (s : StateId) (file : Option GroupFile) : Policy ℤ := do
  if ← allocate then
    setSlot .imported none
    match file with
    | none => pure (-1)
    | some f =>
      importRows f.rows
      let rows ← rowsAt (← slotOf .imported)
      if f.readError ∨ !reloadValidateCandidate rows then
        freeImported
        pure (-1)
      else
        let current ← fun w => (w.storeOf s, w)
        let imported ← slotOf .imported
        setSlot .imported none
        match ← importedOrNew imported with
        | none => pure (-1)
        | some a =>
          publishTable s current a
          pure 0
  else pure (-1)

/-- `dsd_tg_policy_clear`. -/
def clear (s : StateId) : Policy ℤ := do
  let current ← fun w => (w.storeOf s, w)
  match current with
  | none => pure 0
  | some _ =>
    match ← contextAlloc with
    | none => pure (-1)
    | some a =>
      publishTable s current a
      pure 0

/-- `dsd_tg_policy_retain`. -/
def retain (s : StateId) : Policy (Option ℕ) := do
  match ← slotOf s with
  | none => pure none
  | some a =>
    modifyStore a fun st => { st with references := st.references + 1 }
    pure (some a)

/-- `dsd_tg_policy_restore`. -/
def restore (s : StateId) (store : Option ℕ) : Policy Unit := do
  let current ← slotOf s
  match store with
  | none => extSet s none
  | some a =>
    if current = some a then extSet s (some a)
    else
      modifyStore a fun st => { st with references := st.references + 1 }
      extSet s (some a)

/-- `dsd_tg_policy_install`. -/
def install (s : StateId) (store : Option ℕ) : Policy Unit := do
  match store with
  | none => restore s none
  | some a =>
    modifyStore a fun st => { st with active := ActiveTable.zero }
    restore s (some a)

/-- Rows of a group file appended to a store. -/
def appendRows (a : ℕ) : List (Entry × Bool) → Policy Unit
  | [] => pure ()
  | (entry, _) :: rows => do
    let _ ← storeAppend a entry
    appendRows a rows

/-- `dsd_tg_policy_load`, with what its file holds. -/
def load (file : Option GroupFile) : Policy (Option ℕ) := do
  match ← contextAlloc with
  | none => pure none
  | some a =>
    match file with
    | none =>
      contextFree a
      pure none
    | some f =>
      appendRows a f.rows
      if f.readError then
        contextFree a
        pure none
      else pure (some a)

/-- `tg_policy_avoid_reserve`. -/
def avoidReserve (a : ℕ) : Policy Bool := do
  let s ← storeAt a
  if s.sessionAvoids.length < s.sessionAvoidCapacity then pure true
  else
    let capacity := if s.sessionAvoidCapacity ≠ 0 then s.sessionAvoidCapacity else 8
    if capacity > (2 ^ 64 - 1) / 4 / 2 then pure false
    else if ← allocate then
      modifyStore a fun s => { s with sessionAvoidCapacity := capacity * 2 }
      pure true
    else pure false

/-- `dsd_tg_policy_session_avoid_add`. -/
def sessionAvoidAdd (s : StateId) (id : BitVec 32) : Policy ℤ :=
  if id = 0 then pure 1
  else do
    let found ← ctxGetMut s false
    match ← importedOrNew found with
    | none => pure (-1)
    | some a =>
      let ids := (← storeAt a).sessionAvoids
      let index := avoidLowerBound ids id
      if ids[index]? = some id then pure 0
      else if ← avoidReserve a then
        if found = none then extSet s (some a)
        modifyStore a fun st => noteMutation (avoidInsert st index id)
        pure 0
      else
        if found = none then contextFree a
        pure (-1)

/-- `dsd_tg_policy_session_avoid_clear`. -/
def sessionAvoidClear (s : StateId) : Policy Unit := do
  match ← ctxGetMut s false with
  | none => pure ()
  | some a =>
    if (← storeAt a).sessionAvoids ≠ [] then
      modifyStore a fun st => noteMutation { st with sessionAvoids := [] }

/-- `dsd_tg_policy_call_skip_arm`. -/
def callSkipArm (s : StateId) (id src : BitVec 32) (fallback : ℤ) (now : Float) : Policy ℤ :=
  if id = 0 then pure 1
  else do
    match ← ctxGetMut s true with
    | none => pure (-1)
    | some a =>
      modifyStore a fun st =>
        { st with callSkips := callSkipArmed st.callSkips id src fallback now }
      pure 0

/-- `dsd_tg_policy_call_skip_touch`. -/
def callSkipTouch (s : StateId) (id : BitVec 32) (now : Float) : Policy ℤ := do
  match ← ctxGetMut s false with
  | none => pure 0
  | some a =>
    if id = 0 then pure 0
    else
      let skips := (← storeAt a).callSkips
      modifyStore a fun st => { st with callSkips := (callSkipTouched skips id now).2 }
      pure (callSkipTouched skips id now).1

/-- `dsd_tg_policy_call_skip_clear`. -/
def callSkipClear (s : StateId) : Policy Unit := do
  match ← ctxGetMut s false with
  | none => pure ()
  | some a => modifyStore a fun st => { st with callSkips := { st.callSkips with count := 0 } }

/-- `dsd_tg_policy_note_active_call`. -/
def noteActiveCall (s : StateId) (route : CallRoute) (decision : Decision) (now : Float) :
    Policy ℤ := do
  match ← ctxGetMut s true with
  | none => pure 1
  | some a =>
    if !routeIsComplete route then pure 1
    else
      modifyStore a fun st => { st with active := activeNoted st.active route decision now }
      pure 0

/-- `dsd_tg_policy_clear_active_call`. -/
def clearActiveCall (s : StateId) (slot : ℤ) : Policy ℤ := do
  match ← ctxGetMut s false with
  | none => pure 0
  | some a =>
    if slot > 1 then pure 1
    else
      modifyStore a fun st => { st with active := activeCleared st.active slot }
      pure 0

/-- One call of the interface, on states and references by number. -/
inductive Op where
  | appendExact (s : ℕ) (entry : Entry)
  | addRangeEntry (s : ℕ) (entry : Entry)
  | storeAppend (h : ℕ) (entry : Entry)
  | upsertExact (s : ℕ) (entry : Entry) (mode : UpsertMode)
  | setMode (s : ℕ) (idStart idEnd : BitVec 32) (mode : CString)
  | setModeAt (s : ℕ) (index : ℕ) (mode : CString)
  | setFields (s : ℕ) (idStart idEnd : BitVec 32) (values : Entry) (mask : BitVec 32)
  | setListeningSelection (s : ℕ) (context : BitVec 64) (generation : BitVec 32)
      (selection : List Selection) (listening : ℤ)
  | removeBounds (s : ℕ) (idStart idEnd : BitVec 32)
  | reloadGroupFile (s : ℕ) (file : Option GroupFile)
  | clear (s : ℕ)
  | install (s h : ℕ)
  | restore (s h : ℕ)
  | retain (s : ℕ)
  | release (h : ℕ)
  | load (file : Option GroupFile)
  | copySnapshot (dst src : ℕ)
  | sessionAvoidAdd (s : ℕ) (id : BitVec 32)
  | sessionAvoidClear (s : ℕ)
  | callSkipArm (s : ℕ) (id src : BitVec 32) (fallback : ℤ) (now : Float)
  | callSkipTouch (s : ℕ) (id : BitVec 32) (now : Float)
  | callSkipClear (s : ℕ)
  | noteActiveCall (s : ℕ) (route : CallRoute) (decision : Decision) (now : Float)
  | clearActiveCall (s : ℕ) (slot : ℤ)

/-- The store a reference names; a number without one stands for no store. -/
def handleAt (h : ℕ) : Policy (Option ℕ) := fun w => (w.handles[h]?, w)

/-- A reference kept. -/
def keepHandle (store : Option ℕ) : Policy Unit := fun w =>
  ((), { w with handles := w.handles ++ store.toList })

/-- A reference dropped. -/
def dropHandle (h : ℕ) : Policy Unit := fun w => ((), { w with handles := w.handles.eraseIdx h })

/-- The call an operation makes, with its result; calls without one return zero. -/
def perform : Op → Policy ℤ
  | .appendExact s entry => appendExact (.app s) entry
  | .addRangeEntry s entry => addRangeEntry (.app s) entry
  | .storeAppend h entry => do
    match ← handleAt h with
    | none => pure 1
    | some a => storeAppend a entry
  | .upsertExact s entry mode => upsertExact (.app s) entry mode
  | .setMode s idStart idEnd mode => setMode (.app s) idStart idEnd mode
  | .setModeAt s index mode => setModeAt (.app s) index mode
  | .setFields s idStart idEnd values mask => setFields (.app s) idStart idEnd values mask
  | .setListeningSelection s context generation selection listening =>
    setListeningSelection (.app s) context generation selection listening
  | .removeBounds s idStart idEnd => removeBounds (.app s) idStart idEnd
  | .reloadGroupFile s file => reloadGroupFile (.app s) file
  | .clear s => clear (.app s)
  | .install s h => do
    install (.app s) (← handleAt h)
    pure 0
  | .restore s h => do
    restore (.app s) (← handleAt h)
    pure 0
  | .retain s => do
    keepHandle (← retain (.app s))
    pure 0
  | .release h => do
    match ← handleAt h with
    | none => pure 0
    | some a =>
      contextFree a
      dropHandle h
      pure 0
  | .load file => do
    match ← load file with
    | none => pure (-1)
    | some a =>
      keepHandle (some a)
      pure 0
  | .copySnapshot dst src => copySnapshot (.app dst) (.app src)
  | .sessionAvoidAdd s id => sessionAvoidAdd (.app s) id
  | .sessionAvoidClear s => do
    sessionAvoidClear (.app s)
    pure 0
  | .callSkipArm s id src fallback now => callSkipArm (.app s) id src fallback now
  | .callSkipTouch s id now => callSkipTouch (.app s) id now
  | .callSkipClear s => do
    callSkipClear (.app s)
    pure 0
  | .noteActiveCall s route decision now => noteActiveCall (.app s) route decision now
  | .clearActiveCall s slot => clearActiveCall (.app s) slot

/-- The process after a sequence of calls. -/
def run (w : World) (ops : List Op) : World := ops.foldl (fun w op => (perform op w).2) w

end DsdNeo.TgPolicy
