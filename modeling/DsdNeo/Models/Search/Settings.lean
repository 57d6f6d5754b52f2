import DsdNeo.Models.Search.Grid

/-!
# The decoder's settings and a scan row over them

The scan scope keeps the configured settings while a row runs over them: entering a row
starts from them, the row's options follow, and leaving puts them back.
-/

namespace DsdNeo.SignalSearch

/-- `dsd_tone_set`. -/
structure ToneSet where
  ctcss : BitVec 64
  dcs : Vector (BitVec 64) 4
  deriving DecidableEq

/-- An empty tone list. -/
def ToneSet.empty : ToneSet := ⟨0, Vector.replicate 4 0⟩

/-- `dsd_receive_policy`, carried whole. -/
abbrev Receive := List (BitVec 64)

/-- `dsd_scan_settings`. -/
structure ScanSettings where
  rtlSquelchLevel : ℚ
  rtlSquelchMode : ℤ
  rtlSquelchMarginDb : ℤ
  analogToneSet : ToneSet
  receive : Receive
  analogToneFilter : ℤ
  aggressiveFramesync : ℤ
  dmrCrcRelaxedDefault : ℤ
  scanVoiceOnly : ℤ
  scanVoiceQualifyMs : ℤ
  scanVoiceHoldMs : ℤ
  scanMaxVisitMs : ℤ
  dmrMuteEncL : ℤ
  dmrMuteEncR : ℤ
  unmuteEncryptedP25 : ℤ
  trunkTuneDataCalls : ℤ
  trunkTuneEncCalls : ℤ
  p25PreferCandidates : ℤ
  groupInFile : String
  analogNfmBandwidthHz : ℤ
  analogAmBandwidthHz : ℤ
  frameDstar : ℤ
  frameX2tdma : ℤ
  frameP25p1 : ℤ
  frameP25p2 : ℤ
  frameNxdn48 : ℤ
  frameNxdn96 : ℤ
  frameDmr : ℤ
  frameDpmr : ℤ
  frameProvoice : ℤ
  frameYsf : ℤ
  frameM17 : ℤ
  frameTetra : ℤ
  modC4fm : ℤ
  modQpsk : ℤ
  modGfsk : ℤ
  modCliLock : ℤ
  modP25p2C4fm : ℤ
  modP25p2ProfileLock : ℤ
  invertedP2 : ℤ
  invertedX2tdma : ℤ
  invertedDmr : ℤ
  invertedDpmr : ℤ
  invertedYsf : ℤ
  invertedM17 : ℤ
  dmrStereo : ℤ
  dmrMono : ℤ
  useCosineFilter : ℤ
  ssize : ℤ
  msize : ℤ
  analogOnly : ℤ
  monitorInputAudio : ℤ
  analogDemod : ℤ
  outputName : String
  forceKey : ℤ
  stateRfMod : ℤ
  stateSamplesPerSymbol : ℤ
  stateSymbolCenter : ℤ
  stateDmrStereo : ℤ
  stateSpsHuntIdx : ℤ
  deriving DecidableEq

/-- The options the search reads or writes, or a scan row writes. -/
structure Opts where
  rtlSquelchLevel : ℚ
  rtlSquelchMode : ℤ
  rtlSquelchMarginDb : ℤ
  analogToneSet : ToneSet
  receive : Receive
  analogToneFilter : ℤ
  aggressiveFramesync : BitVec 16
  dmrCrcRelaxedDefault : BitVec 8
  scanVoiceOnly : ℤ
  scanVoiceQualifyMs : ℤ
  scanVoiceHoldMs : ℤ
  scanMaxVisitMs : ℤ
  dmrMuteEncL : BitVec 16
  dmrMuteEncR : BitVec 16
  unmuteEncryptedP25 : ℤ
  trunkTuneDataCalls : BitVec 8
  trunkTuneEncCalls : BitVec 8
  p25PreferCandidates : BitVec 8
  groupInFile : String
  analogNfmBandwidthHz : ℤ
  analogAmBandwidthHz : ℤ
  frameDstar : ℤ
  frameX2tdma : ℤ
  frameP25p1 : ℤ
  frameP25p2 : ℤ
  frameNxdn48 : ℤ
  frameNxdn96 : ℤ
  frameDmr : ℤ
  frameDpmr : ℤ
  frameProvoice : ℤ
  frameYsf : ℤ
  frameM17 : ℤ
  frameTetra : ℤ
  modC4fm : ℤ
  modQpsk : ℤ
  modGfsk : ℤ
  modCliLock : ℤ
  modP25p2C4fm : ℤ
  modP25p2ProfileLock : ℤ
  invertedP2 : ℤ
  invertedX2tdma : ℤ
  invertedDmr : ℤ
  invertedDpmr : ℤ
  invertedYsf : ℤ
  invertedM17 : ℤ
  dmrStereo : BitVec 16
  dmrMono : BitVec 16
  useCosineFilter : ℤ
  ssize : ℤ
  msize : ℤ
  analogOnly : ℤ
  monitorInputAudio : ℤ
  analogDemod : ℤ
  outputName : String
  airspy : AirspyConfig
  rtlsdrCenterFreq : BitVec 32
  /-- The input is `airspy` or `airspy:`. -/
  airspyInput : Bool
  /-- The input is a radio. -/
  audioInRtl : Bool
  trunkEnable : Bool
  scannerMode : Bool
  trunkScanEnabled : Bool

/-- The decoder state a scan row writes. -/
structure Decoder where
  m : ℤ
  rfMod : ℤ
  samplesPerSymbol : ℤ
  symbolCenter : ℤ
  dmrStereo : BitVec 16
  spsHuntIdx : ℤ

/-- `dsd_scan_settings_capture`. -/
def capture (opts : Opts) (state : Decoder) : ScanSettings where
  rtlSquelchLevel := opts.rtlSquelchLevel
  rtlSquelchMode := opts.rtlSquelchMode
  rtlSquelchMarginDb := opts.rtlSquelchMarginDb
  analogToneSet := opts.analogToneSet
  receive := opts.receive
  analogToneFilter := opts.analogToneFilter
  aggressiveFramesync := opts.aggressiveFramesync.toInt
  dmrCrcRelaxedDefault := opts.dmrCrcRelaxedDefault.toNat
  scanVoiceOnly := opts.scanVoiceOnly
  scanVoiceQualifyMs := opts.scanVoiceQualifyMs
  scanVoiceHoldMs := opts.scanVoiceHoldMs
  scanMaxVisitMs := opts.scanMaxVisitMs
  dmrMuteEncL := opts.dmrMuteEncL.toInt
  dmrMuteEncR := opts.dmrMuteEncR.toInt
  unmuteEncryptedP25 := opts.unmuteEncryptedP25
  trunkTuneDataCalls := opts.trunkTuneDataCalls.toNat
  trunkTuneEncCalls := opts.trunkTuneEncCalls.toNat
  p25PreferCandidates := opts.p25PreferCandidates.toNat
  groupInFile := opts.groupInFile
  analogNfmBandwidthHz := opts.analogNfmBandwidthHz
  analogAmBandwidthHz := opts.analogAmBandwidthHz
  frameDstar := opts.frameDstar
  frameX2tdma := opts.frameX2tdma
  frameP25p1 := opts.frameP25p1
  frameP25p2 := opts.frameP25p2
  frameNxdn48 := opts.frameNxdn48
  frameNxdn96 := opts.frameNxdn96
  frameDmr := opts.frameDmr
  frameDpmr := opts.frameDpmr
  frameProvoice := opts.frameProvoice
  frameYsf := opts.frameYsf
  frameM17 := opts.frameM17
  frameTetra := opts.frameTetra
  modC4fm := opts.modC4fm
  modQpsk := opts.modQpsk
  modGfsk := opts.modGfsk
  modCliLock := opts.modCliLock
  modP25p2C4fm := opts.modP25p2C4fm
  modP25p2ProfileLock := opts.modP25p2ProfileLock
  invertedP2 := opts.invertedP2
  invertedX2tdma := opts.invertedX2tdma
  invertedDmr := opts.invertedDmr
  invertedDpmr := opts.invertedDpmr
  invertedYsf := opts.invertedYsf
  invertedM17 := opts.invertedM17
  dmrStereo := opts.dmrStereo.toInt
  dmrMono := opts.dmrMono.toInt
  useCosineFilter := opts.useCosineFilter
  ssize := opts.ssize
  msize := opts.msize
  analogOnly := opts.analogOnly
  monitorInputAudio := opts.monitorInputAudio
  analogDemod := opts.analogDemod
  outputName := opts.outputName
  forceKey := state.m
  stateRfMod := state.rfMod
  stateSamplesPerSymbol := state.samplesPerSymbol
  stateSymbolCenter := state.symbolCenter
  stateDmrStereo := state.dmrStereo.toInt
  stateSpsHuntIdx := state.spsHuntIdx

/-- `scan_settings_restore_row_opts`. -/
def restoreRowOpts (saved : ScanSettings) (opts : Opts) : Opts :=
  { opts with
    rtlSquelchLevel := saved.rtlSquelchLevel
    rtlSquelchMode := saved.rtlSquelchMode
    rtlSquelchMarginDb := saved.rtlSquelchMarginDb
    analogToneSet := saved.analogToneSet
    receive := saved.receive
    analogToneFilter := saved.analogToneFilter
    aggressiveFramesync := BitVec.ofInt 16 saved.aggressiveFramesync
    dmrCrcRelaxedDefault := BitVec.ofInt 8 saved.dmrCrcRelaxedDefault
    scanVoiceOnly := saved.scanVoiceOnly
    scanVoiceQualifyMs := saved.scanVoiceQualifyMs
    scanVoiceHoldMs := saved.scanVoiceHoldMs
    scanMaxVisitMs := saved.scanMaxVisitMs
    dmrMuteEncL := BitVec.ofInt 16 saved.dmrMuteEncL
    dmrMuteEncR := BitVec.ofInt 16 saved.dmrMuteEncR
    unmuteEncryptedP25 := saved.unmuteEncryptedP25
    trunkTuneDataCalls := BitVec.ofInt 8 saved.trunkTuneDataCalls
    trunkTuneEncCalls := BitVec.ofInt 8 saved.trunkTuneEncCalls
    p25PreferCandidates := BitVec.ofInt 8 saved.p25PreferCandidates
    groupInFile := saved.groupInFile }

/-- `scan_settings_restore_widths`. -/
def restoreWidths (saved : ScanSettings) (opts : Opts) : Opts :=
  { opts with
    analogNfmBandwidthHz := saved.analogNfmBandwidthHz
    analogAmBandwidthHz := saved.analogAmBandwidthHz }

/-- `scan_settings_restore_opts`. -/
def restoreOpts (saved : ScanSettings) (opts : Opts) : Opts :=
  let opts := restoreWidths saved (restoreRowOpts saved opts)
  { opts with
    frameDstar := saved.frameDstar
    frameX2tdma := saved.frameX2tdma
    frameP25p1 := saved.frameP25p1
    frameP25p2 := saved.frameP25p2
    frameNxdn48 := saved.frameNxdn48
    frameNxdn96 := saved.frameNxdn96
    frameDmr := saved.frameDmr
    frameDpmr := saved.frameDpmr
    frameProvoice := saved.frameProvoice
    frameYsf := saved.frameYsf
    frameM17 := saved.frameM17
    frameTetra := saved.frameTetra
    modC4fm := saved.modC4fm
    modQpsk := saved.modQpsk
    modGfsk := saved.modGfsk
    modCliLock := saved.modCliLock
    modP25p2C4fm := saved.modP25p2C4fm
    modP25p2ProfileLock := saved.modP25p2ProfileLock
    invertedP2 := saved.invertedP2
    invertedX2tdma := saved.invertedX2tdma
    invertedDmr := saved.invertedDmr
    invertedDpmr := saved.invertedDpmr
    invertedYsf := saved.invertedYsf
    invertedM17 := saved.invertedM17
    dmrStereo := BitVec.ofInt 16 saved.dmrStereo
    dmrMono := BitVec.ofInt 16 saved.dmrMono
    useCosineFilter := saved.useCosineFilter
    ssize := saved.ssize
    msize := saved.msize
    analogOnly := saved.analogOnly
    monitorInputAudio := saved.monitorInputAudio
    analogDemod := saved.analogDemod
    outputName := saved.outputName }

/-- The decoder state's part of `dsd_scan_settings_restore`. -/
def restoreState (saved : ScanSettings) : Decoder where
  m := saved.forceKey
  rfMod := saved.stateRfMod
  samplesPerSymbol := saved.stateSamplesPerSymbol
  symbolCenter := saved.stateSymbolCenter
  dmrStereo := BitVec.ofInt 16 saved.stateDmrStereo
  spsHuntIdx := saved.stateSpsHuntIdx

/-- What was captured is captured again after it is restored. -/
theorem capture_restore (opts : Opts) (state : Decoder) (opts' : Opts) :
    capture (restoreOpts (capture opts state) opts') (restoreState (capture opts state)) =
      capture opts state := by
  simp [capture, restoreOpts, restoreWidths, restoreRowOpts, restoreState]

/-- A restore leaves what it does not name. -/
structure SameRadio (opts opts' : Opts) : Prop where
  airspy : opts'.airspy = opts.airspy
  rtlsdrCenterFreq : opts'.rtlsdrCenterFreq = opts.rtlsdrCenterFreq
  airspyInput : opts'.airspyInput = opts.airspyInput

/-- `decode_mode_apply_auto` for a configuration, with what every digital preset does. -/
def applyAutoPreset (opts : Opts) : Opts :=
  { opts with
    frameTetra := 0
    frameDstar := 1
    frameX2tdma := 1
    frameP25p1 := 1
    frameP25p2 := 1
    invertedP2 := 0
    frameNxdn48 := 1
    frameNxdn96 := 1
    frameDmr := 1
    frameDpmr := 1
    frameProvoice := 1
    frameYsf := 1
    frameM17 := 1
    outputName := "AUTO"
    monitorInputAudio := if opts.analogOnly ≠ 0 then 0 else opts.monitorInputAudio
    analogOnly := 0
    analogDemod := 0 }

/-- The fields of `dsd_scan_option_values` a search's rows set. -/
structure RowOptions where
  /-- Mode, margin and level of the squelch. -/
  squelch : Option (ℤ × ℤ × ℤ)
  /-- The tone policy and its list. -/
  tone : Option (ℤ × ToneSet)
  /-- The channel width, of the AM or the FM monitor. -/
  bandwidth : Option (Bool × ℤ)

/-- No options. -/
def RowOptions.none : RowOptions := ⟨.none, .none, .none⟩

/-- `squelch_clamp_margin`. -/
def clampMargin (margin : ℤ) : ℤ := if margin < 3 then 3 else if 30 < margin then 30 else margin

/-- `dsd_squelch_level_from_sql`, where `power` takes decibels to a mean power. -/
def levelFromSql (power : ℤ → ℚ) (sql : ℤ) : ℚ := if sql < 0 then power sql else sql

/-- `scan_options_apply`. -/
def applyOptions (power : ℤ → ℚ) (values : RowOptions) (opts : Opts) : Opts :=
  let opts :=
    match values.squelch with
    | some (mode, margin, db) =>
      if isDynamic mode then
        { opts with rtlSquelchMode := mode, rtlSquelchMarginDb := clampMargin margin }
      else { opts with rtlSquelchMode := squelchLevel, rtlSquelchLevel := levelFromSql power db }
    | none => opts
  let opts :=
    match values.bandwidth with
    | some (true, hz) => { opts with analogAmBandwidthHz := hz }
    | some (false, hz) => { opts with analogNfmBandwidthHz := hz }
    | none => opts
  match values.tone with
  | some (filter, tones) => { opts with analogToneFilter := filter, analogToneSet := tones }
  | none => opts

/-- `scan_scope`. -/
structure ScanScope where
  configured : ScanSettings
  mode : ℤ
  suspended : Bool
  options : RowOptions

end DsdNeo.SignalSearch
