import DsdNeo.Models.ChannelScan.Scope
import DsdNeo.Models.Keys.Scan
import DsdNeo.Models.Scan.Scope
import DsdNeo.Models.Tuning.Request

/-!
# The channel scanner

`channel_scan.c`: a row is staged and its tune queued; when the tune has landed, the row's
class, options, talkgroups, key map and keys are installed, unless something the tune was
staged with has changed, and the row is staged again. Frames are served only between a
commit and the next landing or request. Beside the state of the scan stand the requests it
made, with what became of each, and what the last commit found.
-/

namespace DsdNeo.ChannelScan

open SignalSearch ScanScope
open Keys (KeySet Change)
open TgPolicy (World)
open Tuning (TuneResult)

/-- `dsd_scan_row_profile`, with a key map the import has accepted. -/
structure RowProfile where
  values : OptionValues
  groups : Option ℕ
  dmrMap : DmrKeyMap
  valid : mapValid dmrMap = true

/-- The talkgroups a profile sets. -/
def RowProfile.groupStore (p : RowProfile) : Option (Option ℕ) :=
  if p.values.has optGroup then some p.groups else none

/-- The key map a profile sets. -/
def RowProfile.keyMap (p : RowProfile) : Option DmrKeyMap :=
  if p.values.has optDmrMap then some p.dmrMap else none

/-- A row of the channel map. -/
structure Row where
  freq : ℤ
  mode : Mode
  profile : Option RowProfile
  keys : Option KeySet

/-- A row past the end of the map. -/
def Row.blank : Row := ⟨0, .inherit, none, none⟩

/-- The channel map, its sequence number, and how decibels are taken to a mean power. -/
structure Plan where
  rows : List Row
  mapSeq : BitVec 64
  power : ℤ → ℚ

/-- One row. -/
def Plan.row (plan : Plan) (row : ℕ) : Row := (plan.rows[row]?).getD Row.blank

/-- `channel_scan`. -/
structure Scan where
  request : ℕ
  mapSequence : BitVec 64
  row : ℕ
  retry : Bool
  needsCommit : Bool
  mode : Mode
  rowKind : ℤ
  configured : ScanSettings
  keys : Change
  keyEpoch : BitVec 64
  familyRequests : BitVec 32
  familylessSupersedes : BitVec 32
  familyAttached : Bool
  committedRow : Option ℕ
  edits : ℕ → Option RowEdit
  editsEpoch : BitVec 32
  stagedEditsEpoch : BitVec 32
  session : BitVec 32
  stagedValues : Option OptionValues

/-- One tune the scanner asked for: its row and what became of it. -/
structure Tune where
  row : ℕ
  result : TuneResult

/-- What a staged tune depends on. -/
structure Inputs where
  configured : ScanSettings
  keyEpoch : BitVec 64
  editsEpoch : BitVec 32
  familyRequests : BitVec 32
  familylessSupersedes : BitVec 32

/-- A commit: the row, what its tune was staged with, what the commit found, whether the tune
carried a receive family, and the configured width it ran with, by its analog kind. -/
structure Commit where
  row : ℕ
  staged : Inputs
  found : Inputs
  familyAttached : Bool
  widthOfAm : Option Bool

/-- What is asked of the rest of the program in one call: allocations, the rate of a symbol, the
receive family of a tune, the tuner's answer, and whether an edit is accepted. -/
structure Answer where
  scanAllocated : Bool
  scopeAllocated : Bool
  groupsBegun : Bool
  captures : Bool
  copies : Bool
  sps : ℤ
  attaches : Bool
  requestBegun : Bool
  result : TuneResult
  enterAllocated : Bool
  enterSps : ℤ
  editAccepted : Bool
  editStored : Bool

/-- The decoder as the scan reads and writes it. `typed` says that keys were typed over those in
effect; the requests, the row last landed on, what the outstanding tune was staged with and the
last commit are the history of the run. -/
structure State where
  scan : Option Scan
  scope : Option Scope
  live : ScanSettings
  keys : Keys.State
  world : World
  groups : GroupScope
  liveMap : LiveMap
  maps : MapScope
  familyRequests : BitVec 32
  familylessSupersedes : BitVec 32
  lcnFreqRoll : ℤ
  avoided : ℕ → Bool
  rowSession : BitVec 32
  nextRequest : ℕ
  typed : Bool
  tunes : ℕ → Option Tune
  landed : Option ℕ
  staged : Inputs
  commit : Option Commit

/-- `channel_scan_row_values`. -/
def rowValues (plan : Plan) (edits : ℕ → Option RowEdit) (row : ℕ) : Option OptionValues :=
  let base := (plan.row row).profile.map RowProfile.values
  match edits row with
  | none => base
  | some edit =>
    if edit.fieldsEdited = 0 then base else some (editApply base edit (plan.row row).mode)

/-- `channel_scan_row_runs_configured_width`. -/
def rowRunsConfiguredWidth (plan : Plan) (scan : Scan) : Bool :=
  if scan.mode = .inherit then scan.configured.analogOnly = 1
  else if scan.mode.analogKind = none then false
  else !((rowValues plan scan.edits scan.row).any fun v => v.has optBandwidth)

/-- The configured width the staged tune carries, by its analog kind. -/
def carriedWidth (plan : Plan) (scan : Scan) : Option Bool :=
  if rowRunsConfiguredWidth plan scan then some (scan.rowKind = demodAm) else none

/-- The width of an analog kind. -/
def widthHz (s : ScanSettings) (am : Bool) : ℤ :=
  if am then s.analogAmBandwidthHz else s.analogNfmBandwidthHz

/-- `channel_scan_configured_changed`. -/
def configuredChanged (plan : Plan) (latest : ScanSettings) (scan : Scan) : Bool :=
  if settingsEqual (copyWidths latest scan.configured) scan.configured true = false then true
  else
    match carriedWidth plan scan with
    | none => false
    | some am => widthHz latest am ≠ widthHz scan.configured am

/-- `channel_scan_staged_stale`. -/
def stagedStale (plan : Plan) (scan : Scan) (s : State) : Bool :=
  if configuredChanged plan (scanModeConfigured s.scope s.live) scan = true ∨
      scan.keyEpoch ≠ s.keys.keyEpoch ∨ scan.stagedEditsEpoch ≠ scan.editsEpoch then true
  else if scan.familyAttached then scan.familyRequests ≠ s.familyRequests
  else scan.familylessSupersedes ≠ s.familylessSupersedes

/-- What a tune depends on, as it is now. -/
def State.inputs (s : State) (editsEpoch : BitVec 32) : Inputs where
  configured := scanModeConfigured s.scope s.live
  keyEpoch := s.keys.keyEpoch
  editsEpoch := editsEpoch
  familyRequests := s.familyRequests
  familylessSupersedes := s.familylessSupersedes

/-- The groups, key map and keys of a row take the place of the outgoing one's. -/
def installRow (plan : Plan) (row : ℕ) (change : Change) (outgoingForce : ℤ) (s : State) : State :=
  let profile := (plan.row row).profile
  let (groups, world) := groupsEnter s.groups (profile.bind RowProfile.groupStore) s.world
  let (mapsChanged, maps, liveMap) := mapsEnter s.maps s.liveMap (profile.bind RowProfile.keyMap)
  let (keysChanged, keys) := Keys.scanKeyChangeCommit s.keys change
  let epoch :=
    if keysChanged ∨ mapsChanged ∨ outgoingForce ≠ s.live.forceKey then keys.keyEpoch + 1
    else keys.keyEpoch
  { s with
    groups := groups
    world := world
    maps := maps
    liveMap := liveMap
    keys := { keys with keyEpoch := epoch }
    typed := false }

/-- The class and the options of a row, over the configured settings. -/
def enterRow (plan : Plan) (a : Answer) (scope : Scope) (scan : Scan) : Scope × ScanSettings :=
  let (scope, live) := scanModeEnter plan.power scope scan.mode a.enterSps
  scanModeOptions plan.power scope live (rowValues plan scan.edits scan.row)

/-- `channel_scan_commit`, for the scan whose tune has landed. -/
def commitRow (plan : Plan) (a : Answer) (scan : Scan) (s : State) : ℤ × State :=
  let scan := { scan with needsCommit := true }
  if stagedStale plan scan s then
    (0, { s with scan := some { scan with request := 0, retry := true } })
  else
    match scanModeBegin s.scope s.live a.enterAllocated with
    | none => (-1, { s with scan := some { scan with retry := true } })
    | some scope =>
      let found := s.inputs scan.editsEpoch
      let (scope, live) := enterRow plan a scope scan
      let s' := installRow plan scan.row scan.keys s.live.forceKey
        { s with scope := some scope, live := live }
      (1, { s' with
        lcnFreqRoll := scan.row + 1
        scan := some { scan with
          keys := Change.cleared
          committedRow := some scan.row
          request := 0
          needsCommit := false }
        commit := some
          ⟨scan.row, s.staged, found, scan.familyAttached, carriedWidth plan scan⟩ })

/-- `dsd_scan_row_edit_new_session`. -/
def newSession (session : BitVec 32) : BitVec 32 := if session + 1 = 0 then 1 else session + 1

/-- A new scan. -/
def Scan.fresh (session : BitVec 32) (configured : ScanSettings) : Scan where
  request := 0
  mapSequence := 0
  row := 0
  retry := false
  needsCommit := false
  mode := .inherit
  rowKind := 0
  configured := configured
  keys := Change.cleared
  keyEpoch := 0
  familyRequests := 0
  familylessSupersedes := 0
  familyAttached := false
  committedRow := none
  edits := fun _ => none
  editsEpoch := 0
  stagedEditsEpoch := 0
  session := session
  stagedValues := none

/-- The scan, made where there is none. -/
def openScan (a : Answer) (s : State) : Option (Scan × State) :=
  match s.scan with
  | some scan => some (scan, s)
  | none =>
    if a.scanAllocated then
      let session := newSession s.rowSession
      some (Scan.fresh session s.live, { s with rowSession := session })
    else none

/-- The row the scan is now about, with the options staged for it. -/
def Scan.describe (scan : Scan) (plan : Plan) (row : ℕ) : Scan :=
  { scan with
    row := row
    mode := (plan.row row).mode
    mapSequence := plan.mapSeq
    stagedEditsEpoch := scan.editsEpoch
    stagedValues := rowValues plan scan.edits row }

/-- The staging of `channel_scan_start_row`: the scope, the settings of the row, its groups and
its keys are prepared; the retry gate stays closed where one of them fails. -/
def stageRow (plan : Plan) (a : Answer) (scan : Scan) (s : State) : Bool × Scan × State :=
  match scanModeBegin s.scope s.live a.scopeAllocated with
  | none => (false, scan, s)
  | some scope =>
    let s := { s with scope := some scope }
    let conf := scanModeConfigured s.scope s.live
    let next := scanModePrepare plan.power conf scan.mode scan.stagedValues a.sps
    let scan := { scan with rowKind := next.analogDemod, configured := conf }
    if a.groupsBegun = false then (false, scan, s)
    else
      let (prepared, change) :=
        Keys.scanKeyChangePrepare s.keys (plan.row scan.row).keys a.captures a.copies
      let scan := { scan with keys := change }
      if prepared = false then (false, scan, s)
      else
        (true,
          { scan with
            keyEpoch := s.keys.keyEpoch
            retry := false
            familyRequests := s.familyRequests
            familylessSupersedes := s.familylessSupersedes
            familyAttached := a.attaches },
          s)

/-- `dsd_engine_scan_tune_to_freq`: the result, the request and the state with it on record. -/
def scanTuneToFreq (plan : Plan) (a : Answer) (row : ℕ) (s : State) : TuneResult × ℕ × State :=
  if (plan.row row).freq ≤ 0 ∨ a.requestBegun = false then (.failed, 0, s)
  else
    let id := s.nextRequest + 1
    (a.result, id,
      { s with
        nextRequest := id
        tunes := Function.update s.tunes id (some ⟨row, a.result⟩)
        landed := if a.result = .ok then some row else s.landed })

/-- The tune of a staged row, and what its answer leads to. -/
def tuneRow (plan : Plan) (a : Answer) (scan : Scan) (s : State) : ℤ × State :=
  let (result, request, s) :=
    scanTuneToFreq plan a scan.row { s with staged := s.inputs scan.editsEpoch }
  let scan := { scan with request := request }
  match result with
  | .ok => commitRow plan a scan s
  | .pending => (0, { s with scan := some scan })
  | result =>
    (-1, { s with
      scan := some { scan with request := 0 }
      lcnFreqRoll := if result = .failed then scan.row + 1 else s.lcnFreqRoll })

/-- `channel_scan_start_row`. -/
def startRow (plan : Plan) (a : Answer) (row : ℕ) (s : State) : ℤ × State :=
  if row < plan.rows.length then
    if (plan.row row).freq = 0 then (0, { s with lcnFreqRoll := row + 1 })
    else
      match openScan a s with
      | none => (-1, s)
      | some (scan, s) =>
        match stageRow plan a (scan.describe plan row) s with
        | (false, scan, s) => (-1, { s with scan := some scan })
        | (true, scan, s) => tuneRow plan a scan s
  else (0, s)

/-- `dsd_engine_channel_scan_waiting`. -/
def waiting (s : State) : Bool := s.scan.any fun scan => scan.request ≠ 0 || scan.retry

/-- `channel_scan_row_is_current`, while the scanner runs. -/
def rowIsCurrent (plan : Plan) (scan : Scan) : Bool := scan.mapSequence = plan.mapSeq

/-- `dsd_trunk_tuning_request_status`, for a request of the scan. -/
def requestStatus (s : State) (id : ℕ) : TuneResult := ((s.tunes id).map Tune.result).getD .failed

/-- `dsd_engine_channel_scan_pending`. -/
def pending (plan : Plan) (a : Answer) (s : State) : Bool × State :=
  match s.scan with
  | none => (false, s)
  | some scan =>
    if scan.retry then
      let s :=
        if rowIsCurrent plan scan then (startRow plan a scan.row s).2
        else { s with scan := some { scan with retry := false } }
      (waiting s, s)
    else if scan.request = 0 then (false, s)
    else
      let result := requestStatus s scan.request
      if result = .pending then (true, s)
      else if result = .ok ∧ rowIsCurrent plan scan = true then
        let s := (commitRow plan a { scan with request := 0 } s).2
        (waiting s, s)
      else
        (false, { s with
          scan := some { scan with request := 0 }
          lcnFreqRoll :=
            if result = .failed ∧ rowIsCurrent plan scan = true then scan.row + 1
            else s.lcnFreqRoll })

/-- Whether frames of the row are served: no request, no retry and no commit outstanding. -/
def served (s : State) : Bool :=
  s.scan.all fun scan => scan.request = 0 && !scan.retry && !scan.needsCommit

/-- `dsd_engine_channel_scan_service_sync`. -/
def serviceSync (plan : Plan) (a : Answer) (s : State) : Bool × State :=
  if served s then (true, s) else (false, (pending plan a s).2)

/-- `dsd_state_trunk_lcn_next_unavoided`. -/
def nextUnavoided (plan : Plan) (avoided : ℕ → Bool) (row : ℕ) : Option ℕ :=
  ((List.range plan.rows.length).map fun i => (row + i) % plan.rows.length).find? fun row =>
    !avoided row

/-- The row `lcn_freq_roll` names, or the first. -/
def rollRow (plan : Plan) (s : State) : ℕ :=
  if s.lcnFreqRoll < 0 ∨ plan.rows.length ≤ s.lcnFreqRoll then 0 else s.lcnFreqRoll.toNat

/-- `dsd_engine_channel_scan_step`; where every row is avoided, no row is started. -/
def step (plan : Plan) (a : Answer) (s : State) : ℤ × State :=
  if plan.rows.length = 0 then (0, s)
  else if waiting s then (0, (pending plan a s).2)
  else
    match nextUnavoided plan s.avoided (rollRow plan s) with
    | none => (0, s)
    | some row => startRow plan a row s

/-- `dsd_engine_channel_scan_step_manual`. -/
def stepManual (plan : Plan) (a : Answer) (s : State) : ℤ × State :=
  if plan.rows.length = 0 then (0, s)
  else if waiting s then step plan a s
  else
    match nextUnavoided plan (fun row => s.avoided row || decide ((plan.row row).freq = 0))
        (rollRow plan s) with
    | none => (0, s)
    | some row => startRow plan a row s

/-- `dsd_scan_row_edit_status`. -/
inductive EditStatus where
  | applied
  | stored
  | refused
  | stale
  deriving DecidableEq

/-- `channel_scan_store_edit`: an edit of nothing drops the entry; only a new entry may need
memory. -/
def storeEdit (edits : ℕ → Option RowEdit) (row : ℕ) (next : RowEdit) (stored : Bool) :
    Option (ℕ → Option RowEdit) :=
  if next.fieldsEdited = 0 then some (Function.update edits row none)
  else if (edits row).isSome ∨ stored = true then some (Function.update edits row (some next))
  else none

/-- `channel_scan_install_edit`. -/
def installEdit (plan : Plan) (a : Answer) (scan : Scan) (row : ℕ) (next : RowEdit) (s : State) :
    EditStatus × State :=
  match storeEdit scan.edits row next a.editStored with
  | none => (.refused, s)
  | some edits =>
    let scan := { scan with edits := edits, editsEpoch := scan.editsEpoch + 1 }
    let values := rowValues plan edits row
    if scan.committedRow ≠ some row then (.stored, { s with scan := some scan })
    else
      let scan := if row = scan.row then { scan with stagedValues := values } else scan
      match s.scope with
      | none => (.applied, { s with scan := some scan })
      | some scope =>
        let (scope, live) := scanModeOptions plan.power scope s.live values
        (.applied, { s with scan := some scan, scope := some scope, live := live })

/-- `channel_scan_edit_scan`: the scan a session names. -/
def editScan (plan : Plan) (session : BitVec 32) (row : ℕ) (s : State) : Option Scan :=
  s.scan.filter fun scan => session ≠ 0 && session = scan.session && row < plan.rows.length

/-- `dsd_engine_channel_scan_edit_row`, once the field and its value have been checked or not. -/
def editRow (plan : Plan) (a : Answer) (session : BitVec 32) (row bit : ℕ) (action : EditAction)
    (value : EditValue) (s : State) : EditStatus × State :=
  match editScan plan session row s with
  | none => (.stale, s)
  | some scan =>
    if a.editAccepted = false then (.refused, s)
    else
      installEdit plan a scan row
        (editChange ((scan.edits row).getD RowEdit.zero) bit action value) s

/-- `dsd_engine_channel_scan_restore_row_edit`. -/
def restoreRowEdit (plan : Plan) (a : Answer) (session : BitVec 32) (row : ℕ) (fields : BitVec 32)
    (edit : RowEdit) (s : State) : EditStatus × State :=
  match editScan plan session row s with
  | none => (.stale, s)
  | some scan =>
    installEdit plan a scan row
      (editTakeFields ((scan.edits row).getD RowEdit.zero) edit fields) s

/-- The configured settings edited, beside the row where there is one. -/
def configure (plan : Plan) (edit : ScanSettings → ScanSettings) (retime : Option ℤ) (sps : ℤ)
    (s : State) : State :=
  match s.scope with
  | none => { s with live := edit s.live }
  | some scope =>
    let (scope, live) := scanModeSuspend scope s.live
    let (scope, live) := scanModeResume plan.power scope (edit live) retime sps
    { s with scope := some scope, live := live }

/-- The keys with the next epoch, `dsd_enc_lockout_bump_key_epoch`. -/
def bumpKeyEpoch (keys : Keys.State) : Keys.State := { keys with keyEpoch := keys.keyEpoch + 1 }

/-- The operator's keyring edited beside the row, with a new epoch where the edit succeeded. -/
def editKeyring (f : Keys.Keyring → Keys.Keyring) (captures succeeded : Bool) (s : State) : State :=
  let keys := Keys.scanKeysSuspend s.keys
  let keys := Keys.scanKeysResume { keys with live := f keys.live } captures
  { s with keys := if succeeded then bumpKeyEpoch keys else keys, typed := false }

/-- The operator's keys replaced: the baseline beside a row, or the live ones. -/
def replaceKeys (set : KeySet) (s : State) : State :=
  let keys :=
    if s.keys.activeSet then { s.keys with baseline := { set with present := false } }
    else Keys.install s.keys set
  { s with keys := bumpKeyEpoch keys }

/-- A key given as text, to the operator's keys. -/
def applyKeyText (type : Keys.KeyType) (text : Option Text.Bytes) (s : State) : State :=
  match Keys.scanKeysApplyDirect s.keys type text with
  | (none, keys) => { s with keys := bumpKeyEpoch keys }
  | (some _, keys) => { s with keys := keys }

/-- A key typed over those in effect. -/
def typeKey (f : Keys.Keyring → Keys.Keyring) (s : State) : State :=
  { s with keys := bumpKeyEpoch { s.keys with live := f s.keys.live }, typed := true }

/-- The operator's key map replaced beside the row. -/
def replaceMap (m : OperatorMap) (s : State) : State :=
  let (maps, _) := mapsSuspend s.maps s.liveMap
  let (maps, liveMap) := mapsResume maps (editMap m)
  { s with maps := maps, liveMap := liveMap, keys := bumpKeyEpoch s.keys }

/-- The operator's talkgroups edited beside the row. -/
def editGroups (edit : World → World) (s : State) : State :=
  let (groups, world) := groupsSuspend s.groups s.world
  let (groups, world) := groupsResume groups (edit world)
  { s with groups := groups, world := world }

/-- A request for a receive family, which may supersede the tunes that carry none. -/
def requestFamily (supersedes : Bool) (s : State) : State :=
  { s with
    familyRequests := s.familyRequests + 1
    familylessSupersedes :=
      if supersedes then s.familylessSupersedes + 1 else s.familylessSupersedes }

/-- A pending request resolves; one that is OK has the receiver on its row. -/
def complete (id : ℕ) (result : TuneResult) (s : State) : State :=
  match s.tunes id with
  | some ⟨row, .pending⟩ =>
    { s with
      tunes := Function.update s.tunes id (some ⟨row, result⟩)
      landed := if result = .ok then some row else s.landed }
  | _ => s

/-- One event of a scan. -/
inductive Op where
  | step (a : Answer)
  | stepManual (a : Answer)
  | pending (a : Answer)
  | serviceSync (a : Answer)
  | editRow (a : Answer) (session : BitVec 32) (row bit : ℕ) (action : EditAction)
      (value : EditValue)
  | restoreRowEdit (a : Answer) (session : BitVec 32) (row : ℕ) (fields : BitVec 32)
      (edit : RowEdit)
  | configure (edit : ScanSettings → ScanSettings) (retime : Option ℤ) (sps : ℤ)
  | setSquelch (setting : SquelchSetting)
  | setAnalogWidth (am : Bool) (widthHz : ℤ)
  | setTonePolicy (filter : ℤ) (set : ToneSet)
  | editKeyring (f : Keys.Keyring → Keys.Keyring) (captures succeeded : Bool)
  | replaceKeys (set : KeySet)
  | applyKeyText (type : Keys.KeyType) (text : Option Text.Bytes)
  | typeKey (f : Keys.Keyring → Keys.Keyring)
  | replaceMap (m : OperatorMap)
  | editGroups (f : TgPolicy.Store → TgPolicy.Store)
  | replaceGroups (store : Option TgPolicy.Store)
  | requestFamily (supersedes : Bool)
  | complete (id : ℕ) (result : TuneResult)
  | select (roll : ℤ)
  | avoid (row : ℕ) (flag : Bool)

/-- The state after one event. -/
def perform (plan : Plan) (s : State) : Op → State
  | .step a => (step plan a s).2
  | .stepManual a => (stepManual plan a s).2
  | .pending a => (pending plan a s).2
  | .serviceSync a => (serviceSync plan a s).2
  | .editRow a session row bit action value => (editRow plan a session row bit action value s).2
  | .restoreRowEdit a session row fields edit =>
    (restoreRowEdit plan a session row fields edit s).2
  | .configure edit retime sps => configure plan edit retime sps s
  | .setSquelch setting =>
    let (scope, live) := setConfiguredSquelch s.scope s.live setting
    { s with scope := scope, live := live }
  | .setAnalogWidth am widthHz =>
    let (scope, live) := setConfiguredAnalogWidth s.scope s.live am widthHz
    { s with scope := scope, live := live }
  | .setTonePolicy filter set =>
    let (scope, live) := setConfiguredTonePolicy s.scope s.live filter set
    { s with scope := scope, live := live }
  | .editKeyring f captures succeeded => editKeyring f captures succeeded s
  | .replaceKeys set => replaceKeys set s
  | .applyKeyText type text => applyKeyText type text s
  | .typeKey f => typeKey f s
  | .replaceMap m => replaceMap m s
  | .editGroups f => editGroups (editStore f) s
  | .replaceGroups store => editGroups (replaceStore store) s
  | .requestFamily supersedes => requestFamily supersedes s
  | .complete id result => complete id result s
  | .select roll => { s with lcnFreqRoll := roll }
  | .avoid row flag => { s with avoided := Function.update s.avoided row flag }

/-- A run. -/
def run (plan : Plan) (s : State) (ops : List Op) : State := ops.foldl (perform plan) s

end DsdNeo.ChannelScan
