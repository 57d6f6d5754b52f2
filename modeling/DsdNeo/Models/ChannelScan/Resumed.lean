import DsdNeo.Models.ChannelScan.Operator

/-!
# A suspend taken back

The live settings of a row are its class and its options over the configured settings. Set aside
and brought back with nothing changed in between, the row is the same row, whatever timing the
configured decoder got, and the decoder runs on as it was.
-/

namespace DsdNeo.ChannelScan

open SignalSearch Session

variable {power : ℤ → ℚ} {same : ℚ}

/-- The samples of a symbol and its centre. -/
def setSymbol (sps center : ℤ) (s : ScanSettings) : ScanSettings :=
  { s with stateSamplesPerSymbol := sps, stateSymbolCenter := center }

theorem setUnlockedModulation_setSymbol (rfMod sps center : ℤ) (s : ScanSettings) :
    setUnlockedModulation rfMod (setSymbol sps center s) =
      setSymbol sps center (setUnlockedModulation rfMod s) := by
  have hlock : (setSymbol sps center s).modCliLock = s.modCliLock := rfl
  rw [setUnlockedModulation, setUnlockedModulation, hlock]
  split
  · rfl
  · rfl

theorem setFrames_setSymbol (frames : Frames) (sps center : ℤ) (s : ScanSettings) :
    setFrames frames (setSymbol sps center s) = setSymbol sps center (setFrames frames s) := rfl

theorem setModulation_setSymbol (rfMod sps center : ℤ) (s : ScanSettings) :
    setModulation rfMod (setSymbol sps center s) = setSymbol sps center (setModulation rfMod s) :=
      rfl

theorem decodeModeApplyAnalog_setSymbol (sps center : ℤ) (s : ScanSettings) :
    decodeModeApplyAnalog (setSymbol sps center s) =
      setSymbol sps center (decodeModeApplyAnalog s) := by
  rw [decodeModeApplyAnalog, decodeModeApplyAnalog, setFrames_setSymbol,
    setUnlockedModulation_setSymbol]
  rfl

theorem stagePreset_setSymbol (mode : Mode) (sps center : ℤ) (s : ScanSettings) :
    ∃ sps' center', stagePreset mode (setSymbol sps center s) =
      setSymbol sps' center' (stagePreset mode s) := by
  have hs : { setSymbol sps center s with frameTetra := 0 } =
      setSymbol sps center { s with frameTetra := 0 } := rfl
  unfold stagePreset
  rw [hs]
  generalize { s with frameTetra := 0 } = t
  cases mode with
  | inherit => exact ⟨sps, center, rfl⟩
  | p25 =>
    refine ⟨sps, center, ?_⟩
    dsimp only [decodeModeApplyTdma]
    rw [setFrames_setSymbol, setModulation_setSymbol]
    rfl
  | dmr =>
    refine ⟨sps, center, ?_⟩
    dsimp only [decodeModeApplyDmr]
    rw [setFrames_setSymbol, setUnlockedModulation_setSymbol]
    rfl
  | nxdn96 | nxdn48 | dpmr => exact ⟨20, 9, rfl⟩
  | dstar =>
    refine ⟨sps, center, ?_⟩
    dsimp only [decodeModeApplyDstar]
    rw [setFrames_setSymbol, setUnlockedModulation_setSymbol]
    rfl
  | ysf | m17 => exact ⟨sps, center, rfl⟩
  | nfm => exact ⟨sps, center, decodeModeApplyAnalog_setSymbol sps center t⟩
  | am =>
    refine ⟨sps, center, ?_⟩
    dsimp only [decodeModeApplyAm]
    rw [decodeModeApplyAnalog_setSymbol]
    rfl

/-- A row is timed for its own class, whatever the configured timing. -/
theorem applyTiming_applyTypedDecoder (sps' center : ℤ) (conf : ScanSettings) (mode : Mode)
    (sps index : ℤ) :
    applyTiming sps index (applyTypedDecoder (setSymbol sps' center conf) mode) =
      applyTiming sps index (applyTypedDecoder conf mode) := by
  have hs : { setSymbol sps' center conf with modP25p2C4fm := 0, modP25p2ProfileLock := 0 } =
      setSymbol sps' center { conf with modP25p2C4fm := 0, modP25p2ProfileLock := 0 } := rfl
  have hlock : (setSymbol sps' center conf).modCliLock = conf.modCliLock := rfl
  obtain ⟨sps'', center', hstaged⟩ := stagePreset_setSymbol mode sps' center
    { conf with modP25p2C4fm := 0, modP25p2ProfileLock := 0 }
  rw [applyTypedDecoder, applyTypedDecoder, hs, hstaged, hlock]
  generalize stagePreset mode { conf with modP25p2C4fm := 0, modP25p2ProfileLock := 0 } = t
  by_cases hp : mode = .p25
  · by_cases hl : conf.modCliLock = 0
    · simp only [if_pos hp, if_pos hl]
      rfl
    · simp only [if_pos hp, if_neg hl]
      rfl
  · by_cases hl : conf.modCliLock = 0
    · simp only [if_neg hp, if_pos hl]
      rfl
    · simp only [if_neg hp, if_neg hl]
      rfl

theorem settled_scopeApply_retime (conf : ScanSettings) (retime : Option ℤ) (mode : Mode)
    (options : OptionValues) (sps : ℤ) :
    settled (scopeApply power (configuredRetime retime conf) mode options sps) =
      settled (scopeApply power conf mode options sps) := by
  cases retime with
  | none => rfl
  | some sps' =>
    have hconf : configuredRetime (some sps') conf = setSymbol sps' ((sps' - 1).tdiv 2) conf := rfl
    rw [scopeApply, scopeApply, applyDecoder, applyDecoder, hconf]
    by_cases hmode : mode = .inherit
    · rw [if_pos hmode, if_pos hmode]
      rfl
    · rw [if_neg hmode, if_neg hmode, applyTiming_applyTypedDecoder]
      rfl

/-- Settings without the part of the squelch its mode does not read. -/
def squelchInUse (s : ScanSettings) : ScanSettings :=
  { s with
    rtlSquelchLevel := if isDynamic s.rtlSquelchMode then 0 else s.rtlSquelchLevel
    rtlSquelchMarginDb := if isDynamic s.rtlSquelchMode then s.rtlSquelchMarginDb else 0 }

/-- Settings in force as the row's compare equal, and take nothing from it that counts. -/
theorem resumeEffective_of_settled {effective row : ScanSettings}
    (h : settled effective = settled row) :
    settingsEqual (resumeEffective effective row) row false = true ∧
      squelchInUse (resumeEffective effective row) = squelchInUse effective := by
  cases effective
  cases row
  simp only [settled, ScanSettings.mk.injEq] at h
  obtain ⟨hlevel, rfl, hmargin, hrest⟩ := h
  constructor
  · simp [settingsEqual, acquisition, widthInForceEqual, resumeEffective, copyIdleWidths,
      copyRowOpts, hrest]
  · simp [squelchInUse, resumeEffective, copyIdleWidths, copyRowOpts, hrest, hlevel, hmargin]

theorem inForce_setReceive {scope : Scope} {live : ScanSettings} (h : scope.InForce power live)
    (policy : Receive) :
    { scope with configured := { scope.configured with receive := policy } }.InForce power
      { live with receive := receiveOf scope.options policy } := by
  change settled _ = settled (applyOptions power scope.options
    (applyDecoder { scope.configured with receive := policy } scope.mode 0))
  have hstore (s src : ScanSettings) : copyRow s { src with receive := policy } =
      { copyRow s src with receive := policy } := rfl
  have hdecoder := applyDecoder_store hstore scope.configured scope.mode 0
  rw [hdecoder]
  exact congrArg (fun t => { t with receive := receiveOf scope.options policy }) h

theorem Scope.InForce.trans_live {scope : Scope} {live live' : ScanSettings}
    (h : scope.InForce power live) (hlive : live' = live) : scope.InForce power live' := hlive ▸ h

namespace Session

variable {s : Session}

/-- The row in force is the one its scope describes, with no modulation of a target. -/
def Installed (power : ℤ → ℚ) (s : Session) : Prop :=
  ∀ scope, s.scope = some scope → scope.modulation = .inherit ∧
    (scope.suspended = false → scope.toScope.InForce power s.live)

theorem installed_of_none (h : s.scope = none) : s.Installed power := by
  intro scope hscope
  cases h.symm.trans hscope

theorem installed_of_scope {scope : RowScope} (h : s.scope = some scope)
    (hmodulation : scope.modulation = .inherit)
    (hrow : scope.suspended = false → scope.toScope.InForce power s.live) : s.Installed power := by
  intro scope' hscope
  cases h.symm.trans hscope
  exact ⟨hmodulation, hrow⟩

/-- A suspended scope has no row in force. -/
theorem installed_of_suspended {scope : RowScope} (h : s.scope = some scope)
    (hmodulation : scope.modulation = .inherit) (hrow : scope.suspended = true) :
    s.Installed power :=
  installed_of_scope h hmodulation fun hno => absurd (hno.symm.trans hrow) Bool.false_ne_true

theorem Installed.begin (h : s.Installed power) (allocated : Bool) :
    (s.scanModeBegin allocated).2.Installed power := by
  cases hscope : s.scope with
  | some scope =>
    rw [scanModeBegin, hscope]
    exact h
  | none =>
    cases allocated with
    | false =>
      rw [scanModeBegin, hscope]
      exact h
    | true =>
      rw [scanModeBegin, hscope]
      exact installed_of_scope rfl rfl fun _ => inForce_fresh s.live

/-- An entered row is in force, whatever was before it. -/
theorem Captured.installed_enter (h : s.Captured) (mode : Mode) (sps : ℤ) (allocated : Bool) :
    (s.scanModeEnter power mode sps allocated).2.Installed power := by
  obtain ⟨hbegun, -, -⟩ := h.begin allocated
  rw [Session.scanModeEnter]
  generalize (s.scanModeBegin allocated).2 = t at hbegun ⊢
  cases hscope : t.scope with
  | none => exact installed_of_none hscope
  | some scope =>
    obtain ⟨hconf, -⟩ := hbegun scope hscope
    have hentered : Fits (ChannelScan.scanModeEnter power scope.toScope mode sps).2 :=
      hconf.scopeApply mode OptionValues.zero sps
    have hlive := live_restore t hentered
    have hforce : (ChannelScan.scanModeEnter power scope.toScope mode sps).1.InForce power
        (ChannelScan.scanModeEnter power scope.toScope mode sps).2 :=
      inForce_enter scope.toScope mode sps
    refine installed_of_scope rfl ?_ fun _ => ?_
    · rw [enteredSquelch]
      split_ifs <;> rfl
    · have hscope' : (enteredSquelch { scope with
          toScope := (ChannelScan.scanModeEnter power scope.toScope mode sps).1
          modulation := .inherit } scope.suspended (squelchSettingOfOpts t.live)).toScope =
            (ChannelScan.scanModeEnter power scope.toScope mode sps).1 := by
        rw [enteredSquelch]
        split_ifs <;> rfl
      rw [hscope']
      exact hforce.trans_live hlive

theorem Installed.options (h : s.Installed power) (hcaptured : s.Captured)
    (values : Option OptionValues) : (s.scanModeOptions power same values).2.Installed power := by
  rw [Session.scanModeOptions]
  cases hscope : s.scope with
  | none => exact h
  | some scope =>
    obtain ⟨hmodulation, hforce⟩ := h scope hscope
    obtain ⟨hconf, -⟩ := hcaptured scope hscope
    dsimp only
    split
    · rename_i hrow
      exact installed_of_suspended rfl hmodulation hrow
    · rename_i hrow
      have hrow : scope.suspended = false := Bool.eq_false_of_not_eq_true hrow
      have hinstalled := inForce_options (hforce hrow) hrow values
      have hfits : Fits (ChannelScan.scanModeOptions power scope.toScope s.live values).2 := by
        rw [ChannelScan.scanModeOptions, hrow]
        exact ((s.fits_live.copyRowOpts hconf).copyWidths _).applyOptions _
      refine installed_of_scope (scope_scanSquelchSettle _ _) hmodulation fun _ => ?_
      refine hinstalled.trans_live ?_
      rw [live_scanSquelchSettle, live_restore _ hfits]

theorem Installed.suspend (h : s.Installed power) : s.scanModeSuspend.2.Installed power := by
  cases hscope : s.scope with
  | none =>
    rw [Session.scanModeSuspend, hscope]
    exact h
  | some scope =>
    obtain ⟨hmodulation, -⟩ := h scope hscope
    cases hrow : scope.suspended with
    | true =>
      rw [scanModeSuspend_of_suspended hscope hrow]
      exact h
    | false =>
      rw [scanModeSuspend_of_row hscope hrow]
      exact installed_of_scope rfl hmodulation fun hno => absurd hno.symm Bool.false_ne_true

/-- A resumed row is in force over the settings it found. -/
theorem Installed.resume (h : s.Installed power) (hcaptured : s.Captured) (retime : Option ℤ)
    (sps : ℤ) : (s.scanModeResume power retime sps).2.Installed power := by
  cases hscope : s.scope with
  | none =>
    rw [Session.scanModeResume, hscope]
    exact h
  | some scope =>
    obtain ⟨hmodulation, -⟩ := h scope hscope
    obtain ⟨-, heff⟩ := hcaptured scope hscope
    cases hrow : scope.suspended with
    | false =>
      rw [scanModeResume_of_row hscope hrow]
      exact h
    | true =>
      have hconf := s.fits_live.configuredRetime retime
      have hfits : Fits (resumedRow power scope (configuredRetime retime s.live) sps) :=
        (hconf.resumeTargetDecoder _ _ _ _).applyOptions _
      have hsettled : settled (resumedRow power scope (configuredRetime retime s.live) sps) =
          settled (scopeApply power
            (configuredRetime retime s.live) scope.mode scope.options 0) := by
        rw [resumedRow, hmodulation, resumeTargetDecoder_inherit]
        exact settled_resumeDecoder _ scope.effective scope.mode scope.options sps
      rw [scanModeResume_of_suspended hscope hrow retime sps rfl rfl]
      generalize resumedRow power scope (configuredRetime retime s.live) sps = row
        at hfits hsettled ⊢
      refine installed_of_scope (scope_scanSquelchPush _) hmodulation fun _ => ?_
      rw [live_scanSquelchPush]
      change settled _ = settled (scopeApply power (configuredRetime retime s.live) scope.mode
        scope.options 0)
      cases hsame : unchanged scope row with
      | true =>
        rw [if_pos rfl, live_restore _ (heff.resumeEffective hfits)]
        exact (settled_of_settingsEqual _ _ hsame).trans hsettled
      | false =>
        rw [if_neg Bool.false_ne_true, live_restore _ hfits]
        exact hsettled

/-- A setter of the row's part keeps the row in force over it. -/
theorem Installed.setConfigured (h : s.Installed power) {store : ScanSettings → ScanSettings}
    {shadowed : OptionValues → Bool} (hstore : RowStore power store shadowed)
    (hfits : ∀ {t}, Fits t → Fits (store t)) :
    (s.setConfigured store shadowed).2.Installed power := by
  rw [Session.setConfigured]
  cases hscope : s.scope with
  | none => exact installed_of_none (by exact hscope)
  | some scope =>
    obtain ⟨hmodulation, hforce⟩ := h scope hscope
    cases hrow : scope.suspended with
    | true =>
      simp only [hrow, if_true]
      exact installed_of_suspended (by exact hscope) hmodulation hrow
    | false =>
      have hnot : ¬scope.suspended = true := ne_true_of_eq_false hrow
      have hkept := inForce_setConfigured hstore (hforce hrow)
      dsimp only
      rw [if_neg hnot]
      split
      · rename_i hover
        rw [if_pos hover] at hkept
        exact installed_of_scope rfl hmodulation fun _ => hkept
      · rename_i hbeside
        rw [if_neg hbeside] at hkept
        refine installed_of_scope rfl hmodulation fun _ => hkept.trans_live ?_
        exact live_restore s (hfits s.fits_live)

theorem Installed.setSquelch (h : s.Installed power) (setting : SquelchSetting) :
    (s.setConfiguredSquelchSetting setting).Installed power := by
  have hset := h.setConfigured (rowStore_squelch setting) fun ht => ht.squelchStore setting
  rw [Session.setConfiguredSquelchSetting]
  generalize (s.setConfigured (squelchStore setting) fun v => v.has optSquelch) = set at hset ⊢
  obtain ⟨stored, t⟩ := set
  dsimp only at hset ⊢
  split
  · cases hscope : t.scope with
    | none => exact installed_of_none rfl
    | some scope =>
      obtain ⟨hmodulation, hforce⟩ := hset scope hscope
      have hjudged := judgeAgainst_scope scope setting
      refine installed_of_scope rfl (hjudged.2.trans hmodulation) ?_
      rw [hjudged.1]
      exact hforce
  · exact hset

theorem Installed.setReceive (h : s.Installed power) (policy : Receive) :
    (s.setConfiguredReceive policy).Installed power := by
  rw [Session.setConfiguredReceive]
  cases hscope : s.scope with
  | none => exact installed_of_none (by exact hscope)
  | some scope =>
    obtain ⟨hmodulation, hforce⟩ := h scope hscope
    cases hrow : scope.suspended with
    | true =>
      simp only [hrow, if_true]
      exact installed_of_suspended (by exact hscope) hmodulation hrow
    | false =>
      have hnot : ¬scope.suspended = true := ne_true_of_eq_false hrow
      have hfits : Fits { s.live with receive := receiveOf scope.options policy } :=
        { s.fits_live with }
      dsimp only
      rw [if_neg hnot]
      refine installed_of_scope rfl hmodulation fun _ => ?_
      exact (inForce_setReceive (hforce hrow) policy).trans_live (live_restore s hfits)

theorem Installed.leave (h : s.Installed power) : (s.scanModeLeave same).Installed power := by
  rw [Session.scanModeLeave]
  cases hscope : s.scope with
  | none => exact h
  | some scope => exact installed_of_none rfl

theorem Installed.editSettings (h : s.Installed power) (settings : ScanSettings)
    (told : Option SquelchSetting) : (s.editSettings settings told).Installed power := by
  rw [Session.editSettings]
  cases hscope : s.scope with
  | none => exact h
  | some scope =>
    obtain ⟨hmodulation, -⟩ := h scope hscope
    dsimp only
    split
    · rename_i hrow
      exact installed_of_suspended (by exact hscope) hmodulation hrow
    · exact h

end Session

/-- A call that sets no target's modulation. -/
def Call.Plain : Call → Prop
  | .targetModulation _ => False
  | _ => True

section Runs

variable {s : Session}

theorem Session.Installed.perform (h : s.Installed power) (hcaptured : s.Captured) {call : Call}
    (hcall : call.Plain) : (s.perform power same call).Installed power := by
  cases call with
  | begin allocated => exact h.begin allocated
  | enter mode sps allocated => exact hcaptured.installed_enter mode sps allocated
  | options values => exact h.options hcaptured values
  | targetModulation modulation => cases hcall
  | prepare mode row sps allocated =>
    rw [Session.perform, scanModePrepare_eq]
    exact h.begin allocated
  | suspend => exact h.suspend
  | resume retime sps => exact h.resume hcaptured retime sps
  | setSquelch setting => exact h.setSquelch setting
  | setAnalogWidth am widthHz =>
    exact h.setConfigured (rowStore_width am widthHz) fun ht => ht.widthStore am widthHz
  | setTonePolicy filter set =>
    exact h.setConfigured (rowStore_tone filter set) fun ht => { ht with }
  | setReceive policy => exact h.setReceive policy
  | leave => exact h.leave
  | configure settings =>
    cases hscope : s.scope with
    | none =>
      rw [Session.perform, hscope]
      exact installed_of_none (by exact hscope)
    | some scope =>
      rw [Session.perform, hscope]
      exact h
  | edit settings told => exact h.editSettings settings told

theorem Session.Captured.run (h : s.Captured) (calls : List Call) :
    (s.run power same calls).Captured := by
  induction calls generalizing s with
  | nil => exact h
  | cons call calls ih => exact ih (h.next call)

theorem Session.Installed.run (h : s.Installed power) (hcaptured : s.Captured) {calls : List Call}
    (hcalls : ∀ call ∈ calls, call.Plain) : (s.run power same calls).Installed power := by
  induction calls generalizing s with
  | nil => exact h
  | cons call calls ih =>
    exact ih (h.perform hcaptured (hcalls call List.mem_cons_self)) (hcaptured.next call)
      fun other hother => hcalls other (List.mem_cons_of_mem call hother)

end Runs

section Restored

variable {s : Session}

theorem copyRow_resumeDecoder (conf effective : ScanSettings) (mode : Mode) (sps : ℤ) :
    copyRow (resumeDecoder conf effective mode sps) conf =
      resumeDecoder conf effective mode sps := by
  have htyped : copyRow (applyTypedDecoder conf mode) conf = applyTypedDecoder conf mode :=
    (applyTypedDecoder_copyRow conf conf mode).symm
  rw [resumeDecoder]
  split
  · rfl
  · dsimp only
    generalize applyTypedDecoder conf mode = t at htyped ⊢
    rw [← htyped]
    split_ifs <;> rfl

theorem eq_of_squelchInUse {a b : ScanSettings} (h : squelchInUse a = squelchInUse b)
    (hlevel : a.rtlSquelchLevel = b.rtlSquelchLevel)
    (hmargin : a.rtlSquelchMarginDb = b.rtlSquelchMarginDb) : a = b := by
  cases a
  cases b
  simp only [squelchInUse, ScanSettings.mk.injEq] at h ⊢
  exact ⟨hlevel, h.2.1, hmargin, h.2.2.2⟩

/-- A row set aside, for the settings it ran on. -/
def setAside (scope : RowScope) (live : ScanSettings) : RowScope :=
  { scope with toScope := { scope.toScope with effective := live, suspended := true } }

/-- A row put over its configured settings again. -/
def reapplied (power : ℤ → ℚ) (scope : RowScope) (live : ScanSettings) (retime : Option ℤ)
    (sps : ℤ) : ScanSettings :=
  resumedRow power (setAside scope live) (configuredRetime retime scope.configured) sps

variable {scope : RowScope}

theorem settled_reapplied {live : ScanSettings} (hmodulation : scope.modulation = .inherit)
    (hforce : scope.toScope.InForce power live) (retime : Option ℤ) (sps : ℤ) :
    settled live = settled (reapplied power scope live retime sps) := by
  have hdecoder : reapplied power scope live retime sps = applyOptions power scope.options
      (resumeDecoder (configuredRetime retime scope.configured) live scope.mode sps) := by
    rw [reapplied, resumedRow, setAside, hmodulation]
    rfl
  rw [hdecoder, settled_resumeDecoder, settled_scopeApply_retime]
  exact hforce

theorem squelch_reapplied (hmodulation : scope.modulation = .inherit) (live : ScanSettings)
    (retime : Option ℤ) (sps : ℤ) :
    (reapplied power scope live retime sps).rtlSquelchLevel =
        (applyOptions power scope.options scope.configured).rtlSquelchLevel ∧
      (reapplied power scope live retime sps).rtlSquelchMarginDb =
        (applyOptions power scope.options scope.configured).rtlSquelchMarginDb := by
  have hdecoder : reapplied power scope live retime sps = applyOptions power scope.options
      (resumeDecoder (configuredRetime retime scope.configured) live scope.mode sps) := by
    rw [reapplied, resumedRow, setAside, hmodulation]
    rfl
  have hconf : (configuredRetime retime scope.configured).rtlSquelchLevel =
        scope.configured.rtlSquelchLevel ∧
      (configuredRetime retime scope.configured).rtlSquelchMarginDb =
        scope.configured.rtlSquelchMarginDb := by
    cases retime <;> exact ⟨rfl, rfl⟩
  rw [hdecoder, ← copyRow_resumeDecoder]
  generalize resumeDecoder _ live scope.mode sps = decoder
  dsimp only [applyOptions, copyRow, copyWidths, copyRowOpts]
  rw [hconf.1, hconf.2]
  exact ⟨rfl, rfl⟩

theorem Session.Installed.resume_suspend (h : s.Installed power) (hcaptured : s.Captured)
    (hscope : s.scope = some scope) (hrow : scope.suspended = false) (retime : Option ℤ) (sps : ℤ)
    {row : ScanSettings} (happlied : reapplied power scope s.live retime sps = row) :
    s.scanModeSuspend.2.scanModeResume power retime sps =
      (0, ({ s with scope := some (resumedScope (setAside scope s.live)
        (configuredRetime retime scope.configured) row) }.restore
          (resumeEffective s.live row)).scanSquelchPush) := by
  obtain ⟨hmodulation, hforce⟩ := h scope hscope
  obtain ⟨hconf, -⟩ := hcaptured scope hscope
  have hsettled := settled_reapplied hmodulation (hforce hrow) retime sps
  rw [happlied] at hsettled
  have hsame : unchanged (setAside scope s.live) row = true :=
    (resumeEffective_of_settled hsettled).1
  have hlive : ({ s with scope := some (setAside scope s.live) }.restore scope.configured).live =
      scope.configured := live_restore _ hconf
  have hresumed := scanModeResume_of_suspended
    (s := { s with scope := some (setAside scope s.live) }.restore scope.configured) rfl rfl retime
    sps (congrArg (configuredRetime retime) hlive) happlied
  rw [scanModeSuspend_of_row hscope hrow]
  refine hresumed.trans ?_
  rw [hsame]
  rfl

theorem Session.opts_scanSquelchPush (s : Session) : s.scanSquelchPush.opts = s.opts := by
  unfold Session.scanSquelchPush
  split <;> rfl

theorem Session.state_scanSquelchPush (s : Session) : s.scanSquelchPush.state = s.state := by
  unfold Session.scanSquelchPush
  split <;> rfl

/-- What is put back is what was in force, up to the part of the squelch no one reads. -/
theorem Session.Installed.squelchInUse_resume (h : s.Installed power) (hcaptured : s.Captured)
    (hscope : s.scope = some scope) (hrow : scope.suspended = false) (retime : Option ℤ) (sps : ℤ) :
    squelchInUse (s.scanModeSuspend.2.scanModeResume power retime sps).2.live =
      squelchInUse s.live := by
  obtain ⟨hmodulation, hforce⟩ := h scope hscope
  obtain ⟨hconf, -⟩ := hcaptured scope hscope
  have hsettled := settled_reapplied hmodulation (hforce hrow) retime sps
  have hfits : Fits (reapplied power scope s.live retime sps) :=
    ((hconf.configuredRetime retime).resumeTargetDecoder _ _ _ _).applyOptions _
  rw [h.resume_suspend hcaptured hscope hrow retime sps rfl, live_scanSquelchPush,
    live_restore _ (s.fits_live.resumeEffective hfits)]
  exact (resumeEffective_of_settled hsettled).2

theorem Session.Installed.resume_exactly (h : s.Installed power) (hcaptured : s.Captured)
    (hscope : s.scope = some scope) (hrow : scope.suspended = false)
    (hlevel : s.live.rtlSquelchLevel =
      (applyOptions power scope.options scope.configured).rtlSquelchLevel)
    (hmargin : s.live.rtlSquelchMarginDb =
      (applyOptions power scope.options scope.configured).rtlSquelchMarginDb) (retime : Option ℤ)
    (sps : ℤ) :
    (s.scanModeSuspend.2.scanModeResume power retime sps).2.opts = s.opts ∧
      (s.scanModeSuspend.2.scanModeResume power retime sps).2.state = s.state := by
  obtain ⟨hmodulation, hforce⟩ := h scope hscope
  have hsettled := settled_reapplied hmodulation (hforce hrow) retime sps
  obtain ⟨hlevel', hmargin'⟩ := squelch_reapplied hmodulation s.live retime sps
  have hsame : resumeEffective s.live (reapplied power scope s.live retime sps) = s.live :=
    eq_of_squelchInUse (resumeEffective_of_settled hsettled).2 (hlevel'.trans hlevel.symm)
      (hmargin'.trans hmargin.symm)
  have hopts : restoreOpts s.live s.opts = s.opts := congrArg Session.opts s.restore_live
  have hstate : restoreState s.live = s.state := congrArg Session.state s.restore_live
  rw [h.resume_suspend hcaptured hscope hrow retime sps rfl, opts_scanSquelchPush,
    state_scanSquelchPush, hsame]
  exact ⟨hopts, hstate⟩

end Restored

end DsdNeo.ChannelScan
