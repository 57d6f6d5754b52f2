import DsdNeo.Models.ChannelScan.Settings

/-!
# The scope a scan row is installed in

`scan_mode.c`: the scope keeps the configured settings, and the class and the options of the
row over them. A row is entered with its class alone; its options follow. While the scope is
suspended the configured settings are live and can be edited.
-/

namespace DsdNeo.ChannelScan

open SignalSearch

/-- The protocols a preset looks for. -/
structure Frames where
  dstar : ℤ
  x2tdma : ℤ
  p25p1 : ℤ
  p25p2 : ℤ
  nxdn48 : ℤ
  nxdn96 : ℤ
  dmr : ℤ
  dpmr : ℤ
  provoice : ℤ
  ysf : ℤ
  m17 : ℤ

/-- None of them. -/
def noFrames : Frames := ⟨0, 0, 0, 0, 0, 0, 0, 0, 0, 0, 0⟩

/-- The settings with the protocols of a preset. -/
def setFrames (f : Frames) (s : ScanSettings) : ScanSettings :=
  { s with
    frameDstar := f.dstar
    frameX2tdma := f.x2tdma
    frameP25p1 := f.p25p1
    frameP25p2 := f.p25p2
    frameNxdn48 := f.nxdn48
    frameNxdn96 := f.nxdn96
    frameDmr := f.dmr
    frameDpmr := f.dpmr
    frameProvoice := f.provoice
    frameYsf := f.ysf
    frameM17 := f.m17 }

/-- A modulation as flags and as the decoder runs it: C4FM 0, QPSK 1, GFSK 2. -/
def setModulation (rfMod : ℤ) (s : ScanSettings) : ScanSettings :=
  { s with
    modC4fm := if rfMod = 0 then 1 else 0
    modQpsk := if rfMod = 1 then 1 else 0
    modGfsk := if rfMod = 2 then 1 else 0
    stateRfMod := rfMod }

/-- A modulation the operator's lock stands over. -/
def setUnlockedModulation (rfMod : ℤ) (s : ScanSettings) : ScanSettings :=
  if s.modCliLock = 0 then setModulation rfMod s else s

/-- No stereo, no mono, as the single-channel presets leave it. -/
def singleChannel (s : ScanSettings) : ScanSettings :=
  { s with dmrStereo := 0, dmrMono := 0, stateDmrStereo := 0 }

/-- `decode_mode_apply_tdma`. -/
def decodeModeApplyTdma (s : ScanSettings) : ScanSettings :=
  { setModulation 0 (setFrames { noFrames with p25p1 := 1, p25p2 := 1, dmr := 1 } s) with
    invertedP2 := 0
    dmrStereo := 1
    dmrMono := 0
    outputName := "TDMA" }

/-- `decode_mode_apply_dmr`. -/
def decodeModeApplyDmr (s : ScanSettings) : ScanSettings :=
  { setUnlockedModulation 2 (setFrames { noFrames with dmr := 1 } s) with
    invertedP2 := 0
    dmrStereo := 1
    dmrMono := 0
    outputName := "DMR" }

/-- `decode_mode_apply_nxdn96`. -/
def decodeModeApplyNxdn96 (s : ScanSettings) : ScanSettings :=
  { singleChannel (setModulation 0 (setFrames { noFrames with nxdn96 := 1 } s)) with
    stateSamplesPerSymbol := 20
    stateSymbolCenter := 9
    outputName := "NXDN96" }

/-- `decode_mode_apply_nxdn48`. -/
def decodeModeApplyNxdn48 (s : ScanSettings) : ScanSettings :=
  { singleChannel (setModulation 0 (setFrames { noFrames with nxdn48 := 1 } s)) with
    stateSamplesPerSymbol := 20
    stateSymbolCenter := 9
    outputName := "NXDN48" }

/-- `decode_mode_apply_dpmr`. -/
def decodeModeApplyDpmr (s : ScanSettings) : ScanSettings :=
  { singleChannel (setModulation 0 (setFrames { noFrames with dpmr := 1 } s)) with
    stateSamplesPerSymbol := 20
    stateSymbolCenter := 9
    outputName := "dPMR" }

/-- `decode_mode_apply_dstar`. -/
def decodeModeApplyDstar (s : ScanSettings) : ScanSettings :=
  { singleChannel (setUnlockedModulation 2 (setFrames { noFrames with dstar := 1 } s)) with
    outputName := "DSTAR" }

/-- `decode_mode_apply_ysf`. -/
def decodeModeApplyYsf (s : ScanSettings) : ScanSettings :=
  { singleChannel (setModulation 0 (setFrames { noFrames with ysf := 1 } s)) with
    outputName := "YSF" }

/-- `decode_mode_apply_m17`. -/
def decodeModeApplyM17 (s : ScanSettings) : ScanSettings :=
  { singleChannel (setModulation 0 (setFrames { noFrames with m17 := 1 } s)) with
    useCosineFilter := 0
    outputName := "M17" }

/-- `decode_mode_apply_analog`. -/
def decodeModeApplyAnalog (s : ScanSettings) : ScanSettings :=
  { singleChannel (setUnlockedModulation 0 (setFrames noFrames s)) with
    monitorInputAudio := 1
    analogOnly := 1
    analogDemod := demodFm
    outputName := "Analog Monitor" }

/-- `decode_mode_apply_am`. -/
def decodeModeApplyAm (s : ScanSettings) : ScanSettings :=
  { decodeModeApplyAnalog s with analogDemod := demodAm, outputName := "AM Monitor" }

/-- What a digital preset does to an analog monitor. -/
def leaveAnalog (s : ScanSettings) : ScanSettings :=
  { s with
    monitorInputAudio := if s.analogOnly = 0 then s.monitorInputAudio else 0
    analogOnly := 0
    analogDemod := demodFm }

/-- `dsd_stage_decode_mode_preset` for the preset of a row's class. -/
def stagePreset (mode : Mode) (s : ScanSettings) : ScanSettings :=
  let s := { s with frameTetra := 0 }
  match mode with
  | .inherit => s
  | .p25 => leaveAnalog (decodeModeApplyTdma s)
  | .dmr => leaveAnalog (decodeModeApplyDmr s)
  | .nxdn96 => leaveAnalog (decodeModeApplyNxdn96 s)
  | .nxdn48 => leaveAnalog (decodeModeApplyNxdn48 s)
  | .dpmr => leaveAnalog (decodeModeApplyDpmr s)
  | .dstar => leaveAnalog (decodeModeApplyDstar s)
  | .ysf => leaveAnalog (decodeModeApplyYsf s)
  | .m17 => leaveAnalog (decodeModeApplyM17 s)
  | .nfm => decodeModeApplyAnalog s
  | .am => decodeModeApplyAm s

/-- `dsd_opts_modulation`. -/
def optsModulation (s : ScanSettings) : ℤ :=
  let selected := (if s.modC4fm = 0 then 0 else 1) + (if s.modQpsk = 0 then 0 else 1) +
    (if s.modGfsk = 0 then 0 else 1)
  if selected ≠ 1 then 0 else if s.modQpsk ≠ 0 then 1 else if s.modGfsk ≠ 0 then 2 else 0

/-- `DSD_FRAME_SYNC_SPS_PROFILE_6000_4`. -/
def profile6000 : ℤ := 3

/-- The profile index of a class, `dsd_scan_mode_profile`. -/
def Mode.profileIndex : Mode → ℤ
  | .nxdn48 | .dpmr => 1
  | .dstar => 4
  | _ => 0

/-- `scan_scope_apply_row_decoder`, for a class other than the configured one. -/
def applyTypedDecoder (conf : ScanSettings) (mode : Mode) : ScanSettings :=
  let s := stagePreset mode { conf with modP25p2C4fm := 0, modP25p2ProfileLock := 0 }
  let s := if mode = .p25 then
    { s with frameDmr := 0, frameX2tdma := 0, outputName := "P25" } else s
  if conf.modCliLock = 0 then s
  else
    let s := { s with modC4fm := conf.modC4fm, modQpsk := conf.modQpsk, modGfsk := conf.modGfsk }
    let s :=
      if mode = .p25 then
        { s with
          modP25p2C4fm := conf.modP25p2C4fm
          modP25p2ProfileLock := conf.modP25p2ProfileLock }
      else s
    { s with stateRfMod := optsModulation s }

/-- The profile index a typed row is timed with. -/
def typedProfile (conf : ScanSettings) (mode : Mode) (s : ScanSettings) : ℤ :=
  if mode = .p25 ∧ s.modP25p2ProfileLock ≠ 0 ∧ conf.stateSpsHuntIdx = profile6000 then profile6000
  else mode.profileIndex

/-- `scan_scope_apply_timing`: the rate gives the samples of a symbol. -/
def applyTiming (sps index : ℤ) (s : ScanSettings) : ScanSettings :=
  { s with
    stateSamplesPerSymbol := sps
    stateSymbolCenter := (sps - 1).tdiv 2
    stateSpsHuntIdx := index }

/-- `scan_scope_apply_decoder`: a row without a class runs the configured decoder. -/
def applyDecoder (conf : ScanSettings) (mode : Mode) (sps : ℤ) : ScanSettings :=
  if mode = .inherit then conf
  else
    let s := applyTypedDecoder conf mode
    applyTiming sps (typedProfile conf mode s) s

/-- `scan_scope_apply`. -/
def scopeApply (power : ℤ → ℚ) (conf : ScanSettings) (mode : Mode) (options : OptionValues)
    (sps : ℤ) : ScanSettings :=
  applyOptions power options (applyDecoder conf mode sps)

/-- The options `dsd_scan_settings_equal` compares. -/
def acquisition (s : ScanSettings) : List ℤ :=
  [s.frameDstar, s.frameX2tdma, s.frameP25p1, s.frameP25p2, s.frameNxdn48, s.frameNxdn96,
    s.frameDmr, s.frameDpmr, s.frameProvoice, s.frameYsf, s.frameM17, s.frameTetra, s.modC4fm,
    s.modQpsk, s.modGfsk, s.modCliLock, s.modP25p2C4fm, s.modP25p2ProfileLock, s.invertedP2,
    s.invertedX2tdma, s.invertedDmr, s.invertedDpmr, s.invertedYsf, s.invertedM17, s.dmrStereo,
    s.dmrMono, s.useCosineFilter, s.ssize, s.msize, s.analogOnly, s.monitorInputAudio,
    s.analogDemod]

/-- The timing `dsd_scan_settings_equal` compares. -/
def timing (s : ScanSettings) : List ℤ :=
  [s.stateRfMod, s.stateSamplesPerSymbol, s.stateSymbolCenter, s.stateDmrStereo, s.stateSpsHuntIdx]

/-- `scan_settings_width_in_force`. -/
def widthInForce (s : ScanSettings) (am : Bool) : Bool :=
  decide (s.analogOnly = 1) && (decide (s.analogDemod = demodAm) == am)

/-- `scan_settings_width_in_force_equal`. -/
def widthInForceEqual (a b : ScanSettings) : Bool :=
  if widthInForce a true then a.analogAmBandwidthHz = b.analogAmBandwidthHz
  else if widthInForce a false then a.analogNfmBandwidthHz = b.analogNfmBandwidthHz
  else true

/-- `dsd_scan_settings_equal`. -/
def settingsEqual (a b : ScanSettings) (includeTiming : Bool) : Bool :=
  decide (acquisition a = acquisition b) && widthInForceEqual a b &&
    decide (a.outputName = b.outputName) && (!includeTiming || decide (timing a = timing b))

/-- `scan_settings_restore_row_opts` and the forcing beside it, into other settings. -/
def copyRowOpts (dst src : ScanSettings) : ScanSettings :=
  { dst with
    rtlSquelchLevel := src.rtlSquelchLevel
    rtlSquelchMode := src.rtlSquelchMode
    rtlSquelchMarginDb := src.rtlSquelchMarginDb
    analogToneSet := src.analogToneSet
    receive := src.receive
    analogToneFilter := src.analogToneFilter
    forceKey := src.forceKey
    aggressiveFramesync := src.aggressiveFramesync
    dmrCrcRelaxedDefault := src.dmrCrcRelaxedDefault
    scanVoiceOnly := src.scanVoiceOnly
    scanVoiceQualifyMs := src.scanVoiceQualifyMs
    scanVoiceHoldMs := src.scanVoiceHoldMs
    scanMaxVisitMs := src.scanMaxVisitMs
    dmrMuteEncL := src.dmrMuteEncL
    dmrMuteEncR := src.dmrMuteEncR
    unmuteEncryptedP25 := src.unmuteEncryptedP25
    trunkTuneDataCalls := src.trunkTuneDataCalls
    trunkTuneEncCalls := src.trunkTuneEncCalls
    p25PreferCandidates := src.p25PreferCandidates
    groupInFile := src.groupInFile }

/-- `scan_settings_restore_widths`, into other settings. -/
def copyWidths (dst src : ScanSettings) : ScanSettings :=
  { dst with
    analogNfmBandwidthHz := src.analogNfmBandwidthHz
    analogAmBandwidthHz := src.analogAmBandwidthHz }

/-- `scan_settings_copy_idle_widths`. -/
def copyIdleWidths (dst src : ScanSettings) : ScanSettings :=
  { dst with
    analogNfmBandwidthHz :=
      if widthInForce src false then dst.analogNfmBandwidthHz else src.analogNfmBandwidthHz
    analogAmBandwidthHz :=
      if widthInForce src true then dst.analogAmBandwidthHz else src.analogAmBandwidthHz }

/-- `scan_scope`, without the push of the squelch, the landing decision and the modulation, which
only trunk scanning sets. -/
structure Scope where
  configured : ScanSettings
  effective : ScanSettings
  mode : Mode
  suspended : Bool
  options : OptionValues

/-- The scope `dsd_scan_mode_begin` makes over the live settings. -/
def Scope.fresh (live : ScanSettings) : Scope := ⟨live, live, .inherit, false, OptionValues.zero⟩

/-- `dsd_scan_mode_begin`, with the outcome of its allocation. -/
def scanModeBegin (scope : Option Scope) (live : ScanSettings) (allocated : Bool) : Option Scope :=
  match scope with
  | some scope => some scope
  | none => if allocated then some (Scope.fresh live) else none

/-- `dsd_scan_mode_configured`. -/
def scanModeConfigured (scope : Option Scope) (live : ScanSettings) : ScanSettings :=
  match scope with
  | some scope => if scope.suspended then live else scope.configured
  | none => live

/-- `dsd_scan_mode_prepare`, once the scope is there: the settings staged for a row. -/
def scanModePrepare (power : ℤ → ℚ) (conf : ScanSettings) (mode : Mode) (row : Option OptionValues)
    (sps : ℤ) : ScanSettings :=
  if mode = .inherit then conf else scopeApply power conf mode (row.getD OptionValues.zero) sps

/-- `dsd_scan_mode_enter`, once the scope is there. -/
def scanModeEnter (power : ℤ → ℚ) (scope : Scope) (mode : Mode) (sps : ℤ) : Scope × ScanSettings :=
  ({ scope with mode := mode, suspended := false, options := OptionValues.zero },
    scopeApply power scope.configured mode OptionValues.zero sps)

/-- `dsd_scan_mode_options`, once the scope is there. -/
def scanModeOptions (power : ℤ → ℚ) (scope : Scope) (live : ScanSettings)
    (values : Option OptionValues) : Scope × ScanSettings :=
  let options := values.getD OptionValues.zero
  ({ scope with options := options },
    if scope.suspended then live
    else
      applyOptions power options (copyWidths (copyRowOpts live scope.configured) scope.configured))

/-- `dsd_scan_mode_suspend`. -/
def scanModeSuspend (scope : Scope) (live : ScanSettings) : Scope × ScanSettings :=
  if scope.suspended then (scope, live)
  else ({ scope with effective := live, suspended := true }, scope.configured)

/-- The decoder `dsd_scan_mode_resume` puts back: a P25 row keeps its Phase 2 profile and the
modulation it learned. -/
def resumeDecoder (conf effective : ScanSettings) (mode : Mode) (sps : ℤ) : ScanSettings :=
  if mode = .inherit then conf
  else
    let s := applyTypedDecoder conf mode
    let index :=
      if mode = .p25 ∧ effective.stateSpsHuntIdx = profile6000 then profile6000
      else typedProfile conf mode s
    let s :=
      if mode = .p25 ∧ s.modCliLock = 0 then { s with stateRfMod := effective.stateRfMod } else s
    applyTiming sps index s

/-- What the row ran before the suspend, with what is no acquisition of it as it is now. -/
def resumeEffective (effective row : ScanSettings) : ScanSettings :=
  copyIdleWidths
    (copyRowOpts { effective with monitorInputAudio := row.monitorInputAudio } row) row

/-- `scan_configured_retime`, where the configured decoder has to be timed again. -/
def configuredRetime (sps : Option ℤ) (live : ScanSettings) : ScanSettings :=
  match sps with
  | some sps =>
    { live with stateSamplesPerSymbol := sps, stateSymbolCenter := (sps - 1).tdiv 2 }
  | none => live

/-- `dsd_scan_mode_resume`. -/
def scanModeResume (power : ℤ → ℚ) (scope : Scope) (live : ScanSettings) (retime : Option ℤ)
    (sps : ℤ) : Scope × ScanSettings :=
  if scope.suspended = false then (scope, live)
  else
    let conf := configuredRetime retime live
    let row := applyOptions power scope.options (resumeDecoder conf scope.effective scope.mode sps)
    let effective := resumeEffective scope.effective row
    ({ scope with configured := conf, effective := effective, suspended := false },
      if settingsEqual effective row false then effective else row)

/-- `dsd_squelch_setting`, its margin one a dynamic squelch takes. -/
structure SquelchSetting where
  mode : ℤ
  level : ℚ
  marginDb : ℤ
  inRange : clampMargin marginDb = marginDb

/-- `dsd_squelch_setting_store`. -/
def squelchStore (setting : SquelchSetting) (s : ScanSettings) : ScanSettings :=
  if isDynamic setting.mode then
    { s with rtlSquelchMode := setting.mode, rtlSquelchMarginDb := setting.marginDb }
  else
    { s with
      rtlSquelchMode := squelchLevel
      rtlSquelchLevel := if 0 < setting.level then setting.level else 0 }

/-- A configured setting changed while a row that does not set it runs, or does. -/
def setConfigured (scope : Option Scope) (live : ScanSettings) (store : ScanSettings → ScanSettings)
    (shadowed : OptionValues → Bool) : Option Scope × ScanSettings :=
  match scope with
  | some scope =>
    if scope.suspended then (some scope, store live)
    else
      (some { scope with configured := store scope.configured },
        if shadowed scope.options then live else store live)
  | none => (none, store live)

/-- `dsd_scan_mode_set_configured_squelch_setting`. -/
def setConfiguredSquelch (scope : Option Scope) (live : ScanSettings) (setting : SquelchSetting) :
    Option Scope × ScanSettings :=
  setConfigured scope live (squelchStore setting) fun v => v.has optSquelch

/-- The width of one analog kind. -/
def widthStore (am : Bool) (widthHz : ℤ) (s : ScanSettings) : ScanSettings :=
  if am then { s with analogAmBandwidthHz := widthHz }
  else { s with analogNfmBandwidthHz := widthHz }

/-- `dsd_scan_mode_set_configured_analog_width`. -/
def setConfiguredAnalogWidth (scope : Option Scope) (live : ScanSettings) (am : Bool)
    (widthHz : ℤ) : Option Scope × ScanSettings :=
  setConfigured scope live (widthStore am widthHz) fun v => v.widthOf am

/-- `dsd_scan_mode_set_configured_tone_policy`. -/
def setConfiguredTonePolicy (scope : Option Scope) (live : ScanSettings) (filter : ℤ)
    (set : ToneSet) : Option Scope × ScanSettings :=
  setConfigured scope live (fun s => { s with analogToneFilter := filter, analogToneSet := set })
    fun v => v.has optTone

end DsdNeo.ChannelScan
