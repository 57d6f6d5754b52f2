import DsdNeo.Core.Program.Wp
import DsdNeo.Models.Search.Noted
import DsdNeo.Models.Search.Settings

/-!
# The signal search coordinator

`search_coord` and the functions of the engine that move it: spans are tuned and
measured, the strongest detection is visited, and the receiver goes back to the span.
The radio, the clocks and the audio answer from a stream. Beside the state a history is
kept of what the search planned, measured, visited and left.
-/

namespace DsdNeo.SignalSearch

open Program (onlyIf)
open Text

/-- `dsd_signal_search_phase`. -/
inductive Phase where
  | stopped
  | searching
  | tuning
  | identifying
  | listening
  | held
  | paused
  | error
  deriving DecidableEq

/-- What a hit copies of the source at its detection. -/
structure SourceSettings where
  gainTenthDb : ℤ
  gainAuto : ℤ
  ppm : ℤ
  biasTee : ℤ
  inputSpec : Bytes
  deriving DecidableEq

/-- What a hit copies of its range. -/
structure HitRange where
  bandwidthHz : BitVec 32
  stepNum : BitVec 32
  stepDen : BitVec 32
  am : Bool
  name : Vector (BitVec 8) 64
  deriving DecidableEq

/-- `dsd_signal_search_hit`. -/
structure Hit where
  sessionId : BitVec 64
  hitId : BitVec 64
  startedMs : BitVec 64
  endedMs : BitVec 64
  frequencyHz : BitVec 32
  rangeIndex : ℕ
  range : HitRange
  powerDbfs : ℚ
  noiseDbfs : ℚ
  confirmed : Bool
  ended : Bool
  unresolved : Bool
  protocol : Bytes
  access : Bytes
  target : BitVec 32
  source : BitVec 32
  targetText : Bytes
  sourceText : Bytes
  site : Bytes
  slot : ℕ
  crypt : Bytes
  settings : SourceSettings
  airspy : AirspyConfig
  deriving DecidableEq

/-- `dsd_signal_capture`. -/
structure Capture where
  rateHz : BitVec 32
  captureHz : BitVec 32
  generation : BitVec 32
  captureOffsetHz : ℤ
  deriving DecidableEq

/-- `dsd_signal_measure_candidate`. -/
structure Candidate where
  frequencyHz : BitVec 32
  powerDbfs : ℚ
  noiseDbfs : ℚ
  detected : Bool
  valid : Bool
  deriving DecidableEq

/-- What the detector says of one requested frequency. -/
structure Verdict where
  powerDbfs : ℚ
  noiseDbfs : ℚ
  detected : Bool
  valid : Bool

/-- What the rest of the program answers at one instant. -/
structure Answer where
  /-- `dsd_realtime_mono_ms` and `dsd_decode_now_mono_ms`. -/
  nowMs : BitVec 64
  decodeMs : BitVec 64
  /-- `dsd_decode_now_realtime_s`, in milliseconds. -/
  realtimeMs : BitVec 64
  settings : SourceSettings
  streamActive : Bool
  /-- A live receiver is attached, and its clock is no replay's. -/
  liveReceiver : Bool
  alloc : Bool
  airspyControls : ℤ
  ensureAudio : ℤ
  prepareFamily : ℤ
  outputGeneration : BitVec 32
  tuneAsync : ℤ
  ticket : BitVec 32
  /-- Whether a ticket is complete, and its result. -/
  tunePoll : ℤ × ℤ
  captureGet : Option Capture
  captureLastMs : BitVec 64
  measureRequest : ℤ
  measureGet : ℤ
  reportSession : BitVec 64
  reportRequest : BitVec 64
  reportGeneration : BitVec 32
  verdict : ℕ → Verdict
  carrierOpen : Bool
  carrierObserved : Bool
  controlsPending : Bool
  inputInterrupted : Bool
  /-- The receive policy allows what is received. -/
  allowed : Bool
  /-- The symbol hunt is on the profile of NXDN48. -/
  nxdn48 : Bool
  /-- What a row's preset and symbol timing make of the configured settings. -/
  preset : ℤ → ScanSettings → ScanSettings
  /-- The mean power of a level in decibels. -/
  power : ℤ → ℚ

/-- What the search did. -/
inductive Event where
  /-- The pass counter moved on. -/
  | pass
  /-- A span of a range was planned. -/
  | planned (range : ℕ) (span : Span)
  /-- A report on the span was taken. -/
  | measured (report : List Candidate)
  /-- A detection was chosen for a visit, beside the avoids of the moment. -/
  | chosen (frequency : BitVec 32) (avoids : List (BitVec 32))
  /-- The span of a range was left after a report, beside the avoids of the moment. -/
  | left (range : ℕ) (span : Span) (report : List Candidate) (avoids : List (BitVec 32))

/-- `search_coord`, with the status it publishes and, the latest first, the hits it handed to
the observer. -/
structure Coord where
  config : Config
  phase : Phase
  revision : BitVec 64
  pass : BitVec 64
  rangeIndex : ℕ
  channelIndex : ℕ
  channelCount : ℕ
  captureRateHz : BitVec 32
  identifying : Bool
  owned : Bool
  livePowerValid : Bool
  hit : Hit
  site : Site
  call : SearchCall
  published : List Hit
  message : String
  saved : ScanSettings
  savedFrequency : BitVec 32
  savedAirspy : AirspyConfig
  suppressed : List (BitVec 32)
  request : BitVec 64
  nextHit : BitVec 64
  acquired : BitVec 64
  probeStarted : BitVec 64
  activity : BitVec 64
  tuneStarted : BitVec 64
  lastPublish : BitVec 64
  measurementStarted : BitVec 64
  landed : BitVec 64
  hold : Bool
  skip : Bool
  needSpan : Bool
  visit : Bool
  measuring : Bool
  stopping : Bool
  probing : Bool
  restored : Bool
  restoreQueued : Bool
  analogVisit : Bool
  listenReady : Bool
  receptionEnded : Bool
  ticket : BitVec 32
  target : BitVec 32
  beforeGeneration : BitVec 32
  span : Span
  liveMeasuring : Bool
  liveRequest : BitVec 64
  liveNext : BitVec 64
  liveAccepted : BitVec 64

/-- The decoder with its search. A search that was never started is a stopped one. -/
structure State where
  opts : Opts
  state : Decoder
  scope : Option ScanScope
  c : Coord
  /-- The frequencies of the detector's last request. -/
  requested : List (BitVec 32)
  answers : ℕ → Answer
  /-- What the search did, the latest first. -/
  log : List Event

/-- Programs of the decoder. -/
abbrev Prog := StateM State

/-- What the rest of the program answers now. -/
def ask : Prog Answer := fun s => (s.answers 0, { s with answers := fun n => s.answers (n + 1) })

/-- An edit of the coordinator. -/
def modifyC (f : Coord → Coord) : Prog Unit := modify fun s => { s with c := f s.c }

/-- An edit of the options. -/
def modifyOpts (f : Opts → Opts) : Prog Unit := modify fun s => { s with opts := f s.opts }

/-- A note in the history. -/
def note (e : Event) : Prog Unit := modify fun s => { s with log := e :: s.log }

/-- A range that is not there. -/
def Range.zero : Range where
  name := Vector.replicate 64 0
  startHz := 0
  endHz := 0
  stepNum := 0
  stepDen := 0
  bandwidthHz := 0
  enabled := false
  am := false
  digital := 0
  gainSet := false
  gainTenthDb := 0
  gainAuto := 0
  airspyGainSet := false
  airspy := ⟨Vector.replicate 17 0, 0, 0, 0, 0, 0, 0, 0, 0, 0, 0⟩
  sensitivityDb := 0
  minimumDbfs := 0
  squelchMode := 0
  squelchMarginDb := 0
  squelchDbfs := 0
  probeMs := 0
  maxVisitMs := 0

/-- No hit. -/
def Hit.zero : Hit where
  sessionId := 0
  hitId := 0
  startedMs := 0
  endedMs := 0
  frequencyHz := 0
  rangeIndex := 0
  range := ⟨0, 0, 0, false, Vector.replicate 64 0⟩
  powerDbfs := 0
  noiseDbfs := 0
  confirmed := false
  ended := false
  unresolved := false
  protocol := []
  access := []
  target := 0
  source := 0
  targetText := []
  sourceText := []
  site := []
  slot := 0
  crypt := []
  settings := ⟨0, 0, 0, 0, []⟩
  airspy := Range.zero.airspy

/-- The range being searched. -/
def Coord.range (c : Coord) : Range := (c.config.ranges[c.rangeIndex]?).getD Range.zero

/-- `dsd_scan_settings_restore`. -/
def settingsRestore (saved : ScanSettings) : Prog Unit :=
  modify fun s => { s with opts := restoreOpts saved s.opts, state := restoreState saved }

/-- `dsd_scan_mode_begin`. -/
def scanModeBegin : Prog ℤ := do
  let s ← get
  let a ← ask
  match s.scope with
  | some _ => pure 0
  | none =>
    if a.alloc then
      modify fun s =>
        { s with scope := some ⟨capture s.opts s.state, 0, false, RowOptions.none⟩ }
      pure 0
    else pure (-1)

/-- `scan_scope_apply` of a row without options. -/
def scanScopeApply (scope : ScanScope) : Prog Unit := do
  settingsRestore scope.configured
  if scope.mode = 0 then pure ()
  else do
    let a ← ask
    settingsRestore (a.preset scope.mode scope.configured)

/-- `dsd_scan_mode_enter`. -/
def scanModeEnter (mode : ℤ) : Prog ℤ := do
  if mode < 0 ∨ 10 < mode then pure (-1)
  else do
    let rc ← scanModeBegin
    if rc ≠ 0 then pure (-1)
    else do
      let s ← get
      match s.scope with
      | none => pure (-1)
      | some scope => do
        let scope : ScanScope := ⟨scope.configured, mode, false, RowOptions.none⟩
        modify fun s => { s with scope := some scope }
        scanScopeApply scope
        pure 0

/-- `dsd_scan_mode_options`. -/
def scanModeOptions (values : RowOptions) : Prog ℤ := do
  let s ← get
  let a ← ask
  match s.scope with
  | none => pure (-1)
  | some scope => do
    modify fun s => { s with scope := some { scope with options := values } }
    if scope.suspended then pure 0
    else do
      modify fun s =>
        { s with
          opts := applyOptions a.power values
            (restoreWidths scope.configured (restoreRowOpts scope.configured s.opts))
          state := { s.state with m := scope.configured.forceKey } }
      pure 0

/-- `dsd_scan_mode_leave`. -/
def scanModeLeave : Prog Unit := do
  let s ← get
  match s.scope with
  | none => pure ()
  | some scope => do
    onlyIf (scope.suspended = false) (settingsRestore scope.configured)
    modify fun s => { s with scope := none }

/-- `search_publish`. -/
def searchPublish (hitChanged : Bool) : Prog Unit := do
  let a ← ask
  modifyC fun c =>
    { c with
      published := if hitChanged then c.hit :: c.published else c.published
      identifying := c.probing && !c.hit.ended
      owned := decide (c.phase ≠ .stopped)
      revision := c.revision + 1
      lastPublish := a.nowMs }

/-- `dsd_engine_signal_search_active`. -/
def searchActive (s : State) : Bool := decide (s.c.phase ≠ .stopped)

/-- `search_end_hit`. -/
def searchEndHit : Prog Unit := do
  let s ← get
  onlyIf (s.c.hit.hitId ≠ 0 ∧ s.c.hit.ended = false) do
    modifyC fun c =>
      { c with
        hit := { c.hit with ended := true, endedMs := (s.answers 0).realtimeMs }
        livePowerValid := false }
    searchPublish true

/-- `search_cancel_measurements`. -/
def searchCancelMeasurements : Prog Unit :=
  modifyC fun c =>
    { c with measuring := false, liveMeasuring := false, liveNext := 0, livePowerValid := false }

/-- `search_error`. -/
def searchError (message : String) : Prog Unit := do
  searchEndHit
  searchCancelMeasurements
  modifyC fun c => { c with stopping := false, phase := .error, message := message }
  searchPublish false

/-- `search_excluded`. -/
def searchExcluded (c : Coord) (f : BitVec 32) : Bool :=
  c.config.avoids.contains f || c.suppressed.contains f

/-- `search_suppress`. -/
def searchSuppress (f : BitVec 32) : Prog Unit :=
  modifyC fun c =>
    if c.suppressed.contains f = false ∧ c.suppressed.length < maxChannels then
      { c with suppressed := c.suppressed ++ [f] }
    else c

/-- The wrap of `search_select_range` past the last range. -/
def searchWrap : Prog Unit := do
  let s ← get
  onlyIf (s.c.rangeIndex = s.c.config.ranges.length) do
    modifyC fun c => { c with rangeIndex := 0, pass := c.pass + 1, suppressed := [] }
    note .pass

/-- The loop of `search_select_range`, with the tries left. -/
def searchSelectLoop : ℕ → Prog Bool
  | 0 => pure false
  | tries + 1 => do
    searchWrap
    let s ← get
    if s.c.range.enabled = true ∧ s.c.channelIndex < channelCount s.c.range then do
      modifyC fun c => { c with channelCount := channelCount c.range }
      pure true
    else do
      modifyC fun c => { c with rangeIndex := c.rangeIndex + 1, channelIndex := 0 }
      searchSelectLoop tries

/-- `search_select_range`. -/
def searchSelectRange : Prog Bool := do
  let s ← get
  searchSelectLoop (s.c.config.ranges.length + 1)

/-- The gains of `search_apply_airspy`. -/
def airspyGain (c : Coord) : AirspyConfig :=
  let gain := if c.range.airspyGainSet then c.range.airspy else c.savedAirspy
  { gain with
    serial := c.savedAirspy.serial
    sampleRate := c.savedAirspy.sampleRate
    biasTee := c.savedAirspy.biasTee }

/-- `search_apply_airspy`. -/
def searchApplyAirspy : Prog ℤ := do
  let s ← get
  let a ← ask
  if s.opts.airspyInput then
    if a.airspyControls ≠ 0 then pure (-1)
    else do
      modifyOpts fun o => { o with airspy := airspyGain s.c }
      pure 0
  else pure 0

/-- The receive class of a range. -/
def rangeMode (r : Range) (analog : Bool) : ℤ :=
  if analog then (if r.am then 10 else 9) else if 1 < r.digital then r.digital - 1 else 0

/-- The options of a range's row. -/
def rangeOptions (r : Range) (analog : Bool) : RowOptions where
  squelch :=
    some (if analog then r.squelchMode else squelchLevel, r.squelchMarginDb,
      if analog then r.squelchDbfs else 0)
  tone := some (0, ToneSet.empty)
  bandwidth := if analog then some (r.am, r.bandwidthHz.toInt) else none

/-- `search_open_audio`. -/
def searchOpenAudio : Prog ℤ := do
  let s ← get
  let a ← ask
  pure (if s.c.visit then a.ensureAudio else 0)

/-- `search_prepare_profile`. -/
def searchPrepareProfile (analog : Bool) : Prog ℤ := do
  let s ← get
  let r := s.c.range
  let rc ← searchApplyAirspy
  if rc ≠ 0 then pure (-1)
  else do
    let rc ← scanModeEnter (rangeMode r analog)
    if rc ≠ 0 then pure (-1)
    else do
      let rc ← scanModeOptions (rangeOptions r analog)
      if rc ≠ 0 then pure (-1)
      else do
        let rc ← searchOpenAudio
        if rc < 0 then pure (-1)
        else do
          let a ← ask
          pure a.prepareFamily

/-- The coordinator as a tune is staged. -/
def Coord.staged (c : Coord) (a : Answer) (target : BitVec 32) (visit analog : Bool) : Coord :=
  { c with
    measurementStarted := 0
    visit := visit
    target := target
    probing := visit && !analog
    analogVisit := visit && analog
    listenReady := false
    beforeGeneration := a.outputGeneration
    ticket := 0
    tuneStarted := a.nowMs
    receptionEnded := false }

/-- `search_queue_tune`. -/
def searchQueueTune (target : BitVec 32) (visit analog : Bool) : Prog Unit := do
  searchCancelMeasurements
  let a ← ask
  modifyC fun c => c.staged a target visit analog
  let rc ← searchPrepareProfile analog
  if rc ≠ 0 then searchError "The receiver cannot apply this range's receive profile"
  else do
    let a ← ask
    modifyC fun c => { c with ticket := a.ticket }
    if a.tuneAsync < 0 then searchError "The receiver refused the tune"
    else do
      modifyC fun c =>
        { c with phase := .tuning, message := if visit then "" else c.message }
      searchPublish false

/-- `search_return_to_span`. -/
def searchReturnToSpan : Prog Unit := do
  searchEndHit
  modifyC fun c => { c with hold := false, skip := false }
  let s ← get
  searchQueueTune s.c.span.tuneHz false false

/-- `search_begin_measurement`. -/
def searchBeginMeasurement : Prog Unit := do
  modifyC fun c => { c with request := c.request + 1 }
  let a ← ask
  if a.measureRequest ≠ 0 then searchError "Unsupported FFT measurement plan"
  else do
    modify fun s => { s with requested := s.c.span.frequencies }
    modifyC fun c =>
      { c with
        measuring := true
        measurementStarted := if c.measurementStarted = 0 then a.nowMs else c.measurementStarted }

/-- `search_restore`. -/
def searchRestore : Prog Unit := do
  let s ← get
  onlyIf (s.c.restored = false) do
    scanModeLeave
    settingsRestore s.c.saved
    modifyOpts fun o => if o.airspyInput then { o with airspy := s.c.savedAirspy } else o
    modifyC fun c => { c with restored := true }

/-- `search_reception_phase`. -/
def receptionPhase (c : Coord) : Phase :=
  if c.hold then .held else if c.probing then .identifying else .listening

end DsdNeo.SignalSearch
