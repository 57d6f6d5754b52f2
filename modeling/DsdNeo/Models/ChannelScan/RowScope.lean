import DsdNeo.Models.ChannelScan.InForce

/-!
# The scan-mode calls over the decoder's options

`scan_mode.c` with the fields of `dsd_opts` and `dsd_state` it captures and restores one by one,
the modulation of a scan target, and the squelch it hands the radio's demodulator. Entering a
row leaves that push to the options that complete it.
-/

namespace DsdNeo.ChannelScan

open SignalSearch

/-- A clamped margin is in range. -/
theorem clampMargin_clampMargin (margin : ℤ) :
    clampMargin (clampMargin margin) = clampMargin margin := by
  unfold clampMargin
  split_ifs <;> omega

/-- `dsd_squelch_setting_dynamic`. -/
def squelchSettingDynamic (mode margin : ℤ) : SquelchSetting where
  mode := if mode = squelchNoise then squelchNoise else squelchAuto
  level := 0
  marginDb := clampMargin margin
  inRange := clampMargin_clampMargin margin

/-- `dsd_squelch_setting_of_level`. -/
def squelchSettingOfLevel (level : ℚ) : SquelchSetting where
  mode := squelchLevel
  level := if 0 < level then level else 0
  marginDb := 10
  inRange := by decide

/-- `dsd_squelch_setting_of_opts`. -/
def squelchSettingOfOpts (s : ScanSettings) : SquelchSetting :=
  if isDynamic s.rtlSquelchMode then squelchSettingDynamic s.rtlSquelchMode s.rtlSquelchMarginDb
  else squelchSettingOfLevel s.rtlSquelchLevel

/-- `dsd_squelch_is_off`. -/
def squelchIsOff (level : ℚ) : Bool := !decide (0 < level)

/-- `dsd_squelch_setting_equal`, where `same` is the relative difference below which two levels
are one threshold. -/
def squelchSettingEqual (same : ℚ) (a b : SquelchSetting) : Bool :=
  if a.mode ≠ b.mode then false
  else if isDynamic a.mode then decide (a.marginDb = b.marginDb)
  else if squelchIsOff a.level || squelchIsOff b.level then
    squelchIsOff a.level == squelchIsOff b.level
  else decide (|a.level - b.level| ≤ same * max |a.level| |b.level|)

/-- `dsd_scan_modulation`. -/
inductive Modulation where
  | inherit
  | auto
  | c4fm
  | cqpsk
  | gfsk
  deriving DecidableEq

/-- Target flags and lock for one modulation. -/
def targetFlags (locked mod : ℤ) (s : ScanSettings) : ScanSettings :=
  { s with
    modCliLock := locked
    modP25p2C4fm := 0
    modP25p2ProfileLock := 0
    modC4fm := if mod = 0 then 1 else 0
    modQpsk := if mod = 1 then 1 else 0
    modGfsk := if mod = 2 then 1 else 0 }

/-- `dsd_scan_mode_apply_modulation`. -/
def applyModulation (mode : Mode) (modulation : Modulation) (s : ScanSettings) : ScanSettings :=
  match modulation with
  | .inherit => s
  | .auto => targetFlags 0 (if mode = .p25 then 0 else 2) s
  | .c4fm => targetFlags 1 0 s
  | .cqpsk => targetFlags 1 1 s
  | .gfsk => targetFlags 1 2 s

/-- `scan_scope_apply_row_decoder`, for a class other than the configured one, with the target's
modulation over it. -/
def applyTargetDecoder (conf : ScanSettings) (mode : Mode) (modulation : Modulation) :
    ScanSettings :=
  let s := applyTypedDecoder conf mode
  if modulation = .inherit then s
  else
    let s := applyModulation mode modulation s
    { s with stateRfMod := optsModulation s }

/-- The decoder `dsd_scan_mode_resume` puts back for a target. -/
def resumeTargetDecoder (conf effective : ScanSettings) (mode : Mode) (modulation : Modulation)
    (sps : ℤ) : ScanSettings :=
  if mode = .inherit then conf
  else
    let s := applyTargetDecoder conf mode modulation
    let index :=
      if mode = .p25 ∧ effective.stateSpsHuntIdx = profile6000 then profile6000
      else typedProfile conf mode s
    let s :=
      if mode = .p25 ∧ s.modCliLock = 0 then { s with stateRfMod := effective.stateRfMod } else s
    applyTiming sps index s

/-- A row without a modulation of its own resumes the decoder it had. -/
theorem resumeTargetDecoder_inherit (conf effective : ScanSettings) (mode : Mode) (sps : ℤ) :
    resumeTargetDecoder conf effective mode .inherit sps = resumeDecoder conf effective mode sps :=
  rfl

/-- `scan_squelch_pending`: what the demodulator holds while a row change is in progress. -/
inductive SquelchPending where
  | settled
  | entered
  | unknown
  deriving DecidableEq

/-- `scan_scope`, without the landing decision of its timing. -/
structure RowScope extends Scope where
  modulation : Modulation
  squelchEnteredFrom : SquelchSetting
  squelchPending : SquelchPending

/-- The decoder a scan runs over, and what its demodulator was last told. -/
structure Session where
  scope : Option RowScope
  opts : Opts
  state : Decoder
  demod : SquelchSetting
  /-- How often the demodulator was told. -/
  pushes : ℕ

namespace Session

/-- `dsd_scan_settings_capture`. -/
def live (s : Session) : ScanSettings := capture s.opts s.state

/-- `dsd_scan_settings_restore`. -/
def restore (s : Session) (saved : ScanSettings) : Session :=
  { s with opts := restoreOpts saved s.opts, state := restoreState saved }

/-- Opts' squelch handed to the demodulator. -/
def tell (s : Session) : Session :=
  { s with demod := squelchSettingOfOpts s.live, pushes := s.pushes + 1 }

/-- `scan_squelch_push`. -/
def scanSquelchPush (s : Session) : Session := if s.opts.audioInRtl then s.tell else s

/-- `scan_squelch_settle`, which `held` is for. -/
def scanSquelchSettle (same : ℚ) (s : Session) (scope : RowScope) (held : SquelchSetting) :
    Session :=
  let held := if scope.squelchPending = .entered then scope.squelchEnteredFrom else held
  let changed := !squelchSettingEqual same held (squelchSettingOfOpts s.live)
  let s := { s with scope := some { scope with squelchPending := .settled } }
  if scope.squelchPending = .unknown || changed then s.scanSquelchPush else s

variable (power : ℤ → ℚ) (same : ℚ)

/-- `dsd_scan_mode_begin`, with the outcome of its allocation. -/
def scanModeBegin (s : Session) (allocated : Bool) : ℤ × Session :=
  match s.scope with
  | some _ => (0, s)
  | none =>
    if allocated then
      (0, { s with
        scope := some ⟨Scope.fresh s.live, .inherit, squelchSettingOfLevel 0, .settled⟩ })
    else (-1, s)

/-- What `dsd_scan_mode_enter` leaves pending of a squelch. -/
def enteredSquelch (scope : RowScope) (wasSuspended : Bool) (before : SquelchSetting) : RowScope :=
  if wasSuspended then { scope with squelchPending := .unknown }
  else if scope.squelchPending = .settled then
    { scope with squelchEnteredFrom := before, squelchPending := .entered }
  else scope

/-- `dsd_scan_mode_enter`, with the samples of a symbol its timing gives. -/
def scanModeEnter (s : Session) (mode : Mode) (sps : ℤ) (allocated : Bool) : ℤ × Session :=
  let s := (s.scanModeBegin allocated).2
  match s.scope with
  | none => (-1, s)
  | some scope =>
    let row := ChannelScan.scanModeEnter power scope.toScope mode sps
    let entered := { scope with toScope := row.1, modulation := .inherit }
    let scope := enteredSquelch entered scope.suspended (squelchSettingOfOpts s.live)
    (0, { s with scope := some scope }.restore row.2)

/-- `dsd_scan_mode_options`. -/
def scanModeOptions (s : Session) (values : Option OptionValues) : ℤ × Session :=
  match s.scope with
  | none => (-1, s)
  | some scope =>
    let before := squelchSettingOfOpts s.live
    let row := ChannelScan.scanModeOptions power scope.toScope s.live values
    let scope := { scope with toScope := row.1 }
    if scope.suspended then (0, { s with scope := some scope })
    else (0, (s.restore row.2).scanSquelchSettle same scope before)

/-- `dsd_scan_mode_target_modulation`. -/
def scanModeTargetModulation (s : Session) (modulation : Modulation) : Session :=
  { s with scope := s.scope.map fun scope => { scope with modulation := modulation } }

/-- `dsd_scan_mode_prepare`: the settings staged for a row, which the decoder takes on and puts
back. -/
def scanModePrepare (s : Session) (mode : Mode) (row : Option OptionValues) (sps : ℤ)
    (allocated : Bool) : Option ScanSettings × Session :=
  let s := (s.scanModeBegin allocated).2
  match s.scope with
  | none => (none, s)
  | some scope =>
    let effective := s.live
    let configured := scanModeConfigured (some scope.toScope) s.live
    if mode = .inherit then (some configured, s)
    else
      let staged := s.restore (ChannelScan.scanModePrepare power configured mode row sps)
      (some staged.live, staged.restore effective)

/-- `dsd_scan_mode_suspend`. -/
def scanModeSuspend (s : Session) : ℤ × Session :=
  match s.scope with
  | none => (0, s)
  | some scope =>
    if scope.suspended then (0, s)
    else
      let row := ChannelScan.scanModeSuspend scope.toScope s.live
      (1, { s with scope := some { scope with toScope := row.1 } }.restore row.2)

/-- `dsd_scan_mode_resume`, with the timing of the configured decoder where it is timed again and
the samples of a symbol the row's timing gives. -/
def scanModeResume (s : Session) (retime : Option ℤ) (sps : ℤ) : ℤ × Session :=
  match s.scope with
  | none => (0, s)
  | some scope =>
    if scope.suspended = false then (0, s)
    else
      let conf := configuredRetime retime s.live
      let decoder := resumeTargetDecoder conf scope.effective scope.mode scope.modulation sps
      let row := applyOptions power scope.options decoder
      let effective := resumeEffective scope.effective row
      let unchanged := settingsEqual effective row false
      let resumed := { scope.toScope with
        configured := conf, effective := effective, suspended := false }
      let scope := { scope with toScope := resumed, squelchPending := .settled }
      let s := { s with scope := some scope }.restore (if unchanged then effective else row)
      (if unchanged then 0 else 1, s.scanSquelchPush)

/-- `dsd_scan_mode_leave`. -/
def scanModeLeave (s : Session) : Session :=
  match s.scope with
  | none => s
  | some scope =>
    let before := squelchSettingOfOpts s.live
    let left :=
      if scope.suspended then
        s.scanSquelchSettle same { scope with squelchPending := .unknown } before
      else (s.restore scope.configured).scanSquelchSettle same scope before
    { left with scope := none }

/-- A configured setting changed while a row that does not set it runs, or does. -/
def setConfigured (s : Session) (store : ScanSettings → ScanSettings)
    (shadowed : OptionValues → Bool) : ℤ × Session :=
  match s.scope with
  | none => (1, s.restore (store s.live))
  | some scope =>
    if scope.suspended then (1, s.restore (store s.live))
    else
      let kept := { scope.toScope with configured := store scope.configured }
      let s := { s with scope := some { scope with toScope := kept } }
      if shadowed scope.options then (0, s) else (1, s.restore (store s.live))

/-- The setting a row change still waiting for its options is judged against. -/
def judgeAgainst (scope : RowScope) (setting : SquelchSetting) : RowScope :=
  if scope.suspended = false ∧ scope.squelchPending = .entered then
    { scope with squelchEnteredFrom := setting }
  else scope

/-- `dsd_scan_mode_set_configured_squelch_setting`, whose caller tells the demodulator. -/
def setConfiguredSquelchSetting (s : Session) (setting : SquelchSetting) : Session :=
  let (stored, s) := s.setConfigured (squelchStore setting) fun v => v.has optSquelch
  if stored = 1 then
    { s with scope := s.scope.map fun scope => judgeAgainst scope setting }.tell
  else s

/-- `dsd_scan_mode_set_configured_analog_width`. -/
def setConfiguredAnalogWidth (s : Session) (am : Bool) (widthHz : ℤ) : ℤ × Session :=
  s.setConfigured (widthStore am widthHz) fun v => v.widthOf am

/-- `dsd_scan_mode_set_configured_tone_policy`. -/
def setConfiguredTonePolicy (s : Session) (filter : ℤ) (set : ToneSet) : ℤ × Session :=
  s.setConfigured (fun t => { t with analogToneFilter := filter, analogToneSet := set })
    fun v => v.has optTone

/-- `dsd_scan_mode_set_configured_receive`: the row's own filters stand over the policy. -/
def setConfiguredReceive (s : Session) (policy : Receive) : Session :=
  match s.scope with
  | none => s.restore { s.live with receive := policy }
  | some scope =>
    if scope.suspended then s.restore { s.live with receive := policy }
    else
      let kept := { scope.toScope with configured := { scope.configured with receive := policy } }
      { s with scope := some { scope with toScope := kept } }.restore
        { s.live with receive := receiveOf scope.options policy }

end Session

/-- One call of a scan, or a change of the settings between calls. -/
inductive Call where
  | begin (allocated : Bool)
  | enter (mode : Mode) (sps : ℤ) (allocated : Bool)
  | options (values : Option OptionValues)
  | targetModulation (modulation : Modulation)
  | prepare (mode : Mode) (row : Option OptionValues) (sps : ℤ) (allocated : Bool)
  | suspend
  | resume (retime : Option ℤ) (sps : ℤ)
  | setSquelch (setting : SquelchSetting)
  | setAnalogWidth (am : Bool) (widthHz : ℤ)
  | setTonePolicy (filter : ℤ) (set : ToneSet)
  | setReceive (policy : Receive)
  | leave
  /-- The operator's settings, without a scope. -/
  | configure (settings : ScanSettings)
  /-- The operator's settings, under a suspended scope, and what the demodulator is told. -/
  | edit (settings : ScanSettings) (told : Option SquelchSetting)

section Runs

variable (power : ℤ → ℚ) (same : ℚ)

/-- The settings an operator leaves, where no row is in force. -/
def Session.editSettings (s : Session) (settings : ScanSettings) (told : Option SquelchSetting) :
    Session :=
  match s.scope with
  | none => s
  | some scope =>
    if scope.suspended then { s.restore settings with demod := told.getD s.demod } else s

/-- The session after a call. -/
def Session.perform (s : Session) : Call → Session
  | .begin allocated => (s.scanModeBegin allocated).2
  | .enter mode sps allocated => (s.scanModeEnter power mode sps allocated).2
  | .options values => (s.scanModeOptions power same values).2
  | .targetModulation modulation => s.scanModeTargetModulation modulation
  | .prepare mode row sps allocated => (s.scanModePrepare power mode row sps allocated).2
  | .suspend => s.scanModeSuspend.2
  | .resume retime sps => (s.scanModeResume power retime sps).2
  | .setSquelch setting => s.setConfiguredSquelchSetting setting
  | .setAnalogWidth am widthHz => (s.setConfiguredAnalogWidth am widthHz).2
  | .setTonePolicy filter set => (s.setConfiguredTonePolicy filter set).2
  | .setReceive policy => s.setConfiguredReceive policy
  | .leave => s.scanModeLeave same
  | .configure settings => if s.scope.isNone then s.restore settings else s
  | .edit settings told => s.editSettings settings told

/-- The session after calls. -/
def Session.run (s : Session) (calls : List Call) : Session :=
    calls.foldl (Session.perform power same) s

end Runs

end DsdNeo.ChannelScan
