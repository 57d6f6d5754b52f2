import DsdNeo.Models.ChannelScan.Scope

/-!
# What a scope has in force

The live settings of an installed row are its class and its options over the configured
settings, up to the timing the decoder hunts over and the half of a squelch its mode does not
read. Every operation of the scope keeps that, whichever row it installs.
-/

namespace DsdNeo.ChannelScan

open SignalSearch OptionValues

/-- Settings without the timing, and without the part of the squelch its mode does not read. -/
def settled (s : ScanSettings) : ScanSettings :=
  { s with
    rtlSquelchLevel := if isDynamic s.rtlSquelchMode then 0 else s.rtlSquelchLevel
    rtlSquelchMarginDb := if isDynamic s.rtlSquelchMode then s.rtlSquelchMarginDb else 0
    stateRfMod := 0
    stateSamplesPerSymbol := 0
    stateSymbolCenter := 0
    stateDmrStereo := 0
    stateSpsHuntIdx := 0 }

/-- The live settings are those of the scope's row. -/
def Scope.InForce (power : ℤ → ℚ) (scope : Scope) (live : ScanSettings) : Prop :=
  settled live = settled (scopeApply power scope.configured scope.mode scope.options 0)

variable {power : ℤ → ℚ}

/-- The row's part of the settings, taken from others. -/
def copyRow (dst src : ScanSettings) : ScanSettings := copyWidths (copyRowOpts dst src) src

theorem setFrames_copyRow (frames : Frames) (s src : ScanSettings) :
    setFrames frames (copyRow s src) = copyRow (setFrames frames s) src := rfl

theorem setModulation_copyRow (rfMod : ℤ) (s src : ScanSettings) :
    setModulation rfMod (copyRow s src) = copyRow (setModulation rfMod s) src := rfl

theorem setUnlockedModulation_copyRow (rfMod : ℤ) (s src : ScanSettings) :
    setUnlockedModulation rfMod (copyRow s src) = copyRow (setUnlockedModulation rfMod s) src := by
  have hlock : (copyRow s src).modCliLock = s.modCliLock := rfl
  rw [setUnlockedModulation, setUnlockedModulation, hlock]
  split
  · rfl
  · rfl

theorem singleChannel_copyRow (s src : ScanSettings) :
    singleChannel (copyRow s src) = copyRow (singleChannel s) src := rfl

theorem decodeModeApplyAnalog_copyRow (s src : ScanSettings) :
    decodeModeApplyAnalog (copyRow s src) = copyRow (decodeModeApplyAnalog s) src := by
  rw [decodeModeApplyAnalog, decodeModeApplyAnalog, setFrames_copyRow,
    setUnlockedModulation_copyRow, singleChannel_copyRow]
  rfl

theorem stagePreset_copyRow (mode : Mode) (s src : ScanSettings) :
    stagePreset mode (copyRow s src) = copyRow (stagePreset mode s) src := by
  have hs : { copyRow s src with frameTetra := 0 } = copyRow { s with frameTetra := 0 } src := rfl
  unfold stagePreset
  rw [hs]
  generalize { s with frameTetra := 0 } = t
  cases mode with
  | inherit => rfl
  | p25 =>
    dsimp only [decodeModeApplyTdma]
    rw [setFrames_copyRow, setModulation_copyRow]
    rfl
  | dmr =>
    dsimp only [decodeModeApplyDmr]
    rw [setFrames_copyRow, setUnlockedModulation_copyRow]
    rfl
  | dstar =>
    dsimp only [decodeModeApplyDstar]
    rw [setFrames_copyRow, setUnlockedModulation_copyRow, singleChannel_copyRow]
    rfl
  | nfm => exact decodeModeApplyAnalog_copyRow t src
  | am =>
    dsimp only [decodeModeApplyAm]
    rw [decodeModeApplyAnalog_copyRow]
    rfl
  | nxdn96 | nxdn48 | dpmr | ysf | m17 =>
    simp only [decodeModeApplyNxdn96, decodeModeApplyNxdn48, decodeModeApplyDpmr,
      decodeModeApplyYsf, decodeModeApplyM17, setFrames_copyRow, setModulation_copyRow,
      singleChannel_copyRow]
    rfl

theorem applyTypedDecoder_copyRow (conf src : ScanSettings) (mode : Mode) :
    applyTypedDecoder (copyRow conf src) mode = copyRow (applyTypedDecoder conf mode) src := by
  have hs : { copyRow conf src with modP25p2C4fm := 0, modP25p2ProfileLock := 0 } =
      copyRow { conf with modP25p2C4fm := 0, modP25p2ProfileLock := 0 } src := rfl
  have hlock : (copyRow conf src).modCliLock = conf.modCliLock := rfl
  rw [applyTypedDecoder, applyTypedDecoder, hs, stagePreset_copyRow, hlock]
  generalize stagePreset mode { conf with modP25p2C4fm := 0, modP25p2ProfileLock := 0 } = t
  by_cases hp : mode = .p25
  · by_cases hl : conf.modCliLock = 0
    · simp only [if_pos hp, if_pos hl]
      rfl
    · simp only [if_pos hp, if_neg hl]
      rfl
  · by_cases hl : conf.modCliLock = 0
    · simp only [if_neg hp, if_pos hl]
    · simp only [if_neg hp, if_neg hl]
      rfl

theorem applyDecoder_copyRow (conf src : ScanSettings) (mode : Mode) (sps : ℤ) :
    applyDecoder (copyRow conf src) mode sps = copyRow (applyDecoder conf mode sps) src := by
  by_cases hmode : mode = .inherit
  · rw [applyDecoder, applyDecoder, if_pos hmode, if_pos hmode]
  · rw [applyDecoder, applyDecoder, if_neg hmode, if_neg hmode, applyTypedDecoder_copyRow]
    rfl

theorem copyRow_applyDecoder (conf : ScanSettings) (mode : Mode) (sps : ℤ) :
    copyRow (applyDecoder conf mode sps) conf = applyDecoder conf mode sps :=
  (applyDecoder_copyRow conf conf mode sps).symm

theorem copyRow_applyOptions (v : OptionValues) (s src : ScanSettings) :
    copyRow (applyOptions power v s) src = copyRow s src := rfl

/-- Over another row's part only the rest of the settings in force counts. -/
theorem settled_applyOptions_copyRow (v : OptionValues) (s src : ScanSettings) :
    settled (applyOptions power v (copyRow s src)) =
      settled (applyOptions power v (copyRow (settled s) src)) := rfl

theorem settled_scopeApply (conf : ScanSettings) (mode : Mode) (options : OptionValues) (sps : ℤ) :
    settled (scopeApply power conf mode options sps) =
      settled (scopeApply power conf mode options 0) := by
  by_cases hmode : mode = .inherit
  · rw [scopeApply, scopeApply, applyDecoder, applyDecoder, if_pos hmode, if_pos hmode]
  · rw [scopeApply, scopeApply, applyDecoder, applyDecoder, if_neg hmode, if_neg hmode]
    rfl

theorem inForce_enter (scope : Scope) (mode : Mode) (sps : ℤ) :
    (scanModeEnter power scope mode sps).1.InForce power (scanModeEnter power scope mode sps).2 :=
  settled_scopeApply _ _ _ sps

theorem has_zero (bit : ℕ) : OptionValues.zero.has bit = false := by
  simp [OptionValues.zero, OptionValues.has]

/-- Cleared options change nothing. -/
theorem applyOptions_zero (s : ScanSettings) : applyOptions power OptionValues.zero s = s := by
  simp [applyOptions, has_zero, dynamicSquelch, levelSquelch, widthOf, receiveOf]

theorem inForce_fresh (live : ScanSettings) : (Scope.fresh live).InForce power live := by
  change settled live = settled (applyOptions power OptionValues.zero live)
  rw [applyOptions_zero]

variable {scope : Scope}

/-- A row's options replace those of any other over the same class. -/
theorem inForce_options {live : ScanSettings} (h : scope.InForce power live)
    (hs : scope.suspended = false) (values : Option OptionValues) :
    (scanModeOptions power scope live values).1.InForce power
      (scanModeOptions power scope live values).2 := by
  generalize hv : values.getD OptionValues.zero = v
  have hrun : scanModeOptions power scope live values =
      ({ scope with options := v }, applyOptions power v (copyRow live scope.configured)) := by
    rw [scanModeOptions, hs, hv]
    rfl
  rw [hrun]
  change settled (applyOptions power v (copyRow live scope.configured)) =
    settled (applyOptions power v (applyDecoder scope.configured scope.mode 0))
  calc settled (applyOptions power v (copyRow live scope.configured))
      = settled (applyOptions power v (copyRow (settled live) scope.configured)) :=
        settled_applyOptions_copyRow v live scope.configured
    _ = settled (applyOptions power v (copyRow (settled (scopeApply power scope.configured
          scope.mode scope.options 0)) scope.configured)) := by rw [h]
    _ = settled (applyOptions power v (copyRow (scopeApply power scope.configured scope.mode
          scope.options 0) scope.configured)) := (settled_applyOptions_copyRow v _ _).symm
    _ = settled (applyOptions power v (copyRow (applyDecoder scope.configured scope.mode 0)
          scope.configured)) := by rw [scopeApply, copyRow_applyOptions]
    _ = settled (applyOptions power v (applyDecoder scope.configured scope.mode 0)) := by
        rw [copyRow_applyDecoder]

theorem settled_applyOptions_timing (v : OptionValues) (s : ScanSettings) (learned : Prop)
    [Decidable learned] (rfMod sps index sps' index' : ℤ) :
    settled (applyOptions power v
      (applyTiming sps index (if learned then { s with stateRfMod := rfMod } else s))) =
      settled (applyOptions power v (applyTiming sps' index' s)) := by
  split
  · rfl
  · rfl

theorem settled_resumeDecoder (conf effective : ScanSettings) (mode : Mode) (options : OptionValues)
    (sps : ℤ) :
    settled (applyOptions power options (resumeDecoder conf effective mode sps)) =
      settled (scopeApply power conf mode options 0) := by
  rw [scopeApply]
  by_cases hmode : mode = .inherit
  · rw [resumeDecoder, applyDecoder, if_pos hmode, if_pos hmode]
  · rw [resumeDecoder, applyDecoder, if_neg hmode, if_neg hmode]
    exact settled_applyOptions_timing options _ _ _ _ _ _ _

theorem settled_of_settingsEqual (effective row : ScanSettings)
    (h : settingsEqual (resumeEffective effective row) row false = true) :
    settled (resumeEffective effective row) = settled row := by
  simp only [settingsEqual, Bool.and_eq_true, decide_eq_true_eq, Bool.not_false, Bool.true_or,
    and_true] at h
  obtain ⟨⟨hacq, hwidth⟩, hname⟩ := h
  have hname' : effective.outputName = row.outputName := hname
  simp only [acquisition, resumeEffective, copyIdleWidths, copyRowOpts, List.cons.injEq, and_true]
    at hacq
  obtain ⟨h1, h2, h3, h4, h5, h6, h7, h8, h9, h10, h11, h12, h13, h14, h15, h16, h17, h18, h19,
    h20, h21, h22, h23, h24, h25, h26, h27, h28, h29, h30, -, h32⟩ := hacq
  have hnfm : (resumeEffective effective row).analogNfmBandwidthHz = row.analogNfmBandwidthHz := by
    by_cases hf : widthInForce row false = true
    · have hf' : widthInForce (resumeEffective effective row) false = true := by
        simpa only [widthInForce, resumeEffective, copyIdleWidths, copyRowOpts, h30, h32] using hf
      have ht' : widthInForce (resumeEffective effective row) true = false := by
        revert hf'
        simp only [widthInForce]
        cases decide ((resumeEffective effective row).analogDemod = demodAm) <;> simp
      rw [widthInForceEqual, ht', hf'] at hwidth
      simpa using hwidth
    · simp only [resumeEffective, copyIdleWidths, hf, Bool.false_eq_true, if_false]
  have ham : (resumeEffective effective row).analogAmBandwidthHz = row.analogAmBandwidthHz := by
    by_cases hf : widthInForce row true = true
    · have hf' : widthInForce (resumeEffective effective row) true = true := by
        simpa only [widthInForce, resumeEffective, copyIdleWidths, copyRowOpts, h30, h32] using hf
      rw [widthInForceEqual, hf'] at hwidth
      simpa using hwidth
    · simp only [resumeEffective, copyIdleWidths, hf, Bool.false_eq_true, if_false]
  generalize hr : resumeEffective effective row = r at hnfm ham ⊢
  cases r
  simp only [resumeEffective, copyIdleWidths, copyRowOpts, ScanSettings.mk.injEq] at hr hnfm ham
  cases row
  simp_all [settled]

theorem inForce_resume (hs : scope.suspended = true) (live : ScanSettings) (retime : Option ℤ)
    (sps : ℤ) :
    (scanModeResume power scope live retime sps).1.InForce power
      (scanModeResume power scope live retime sps).2 := by
  rw [scanModeResume, if_neg (by rw [hs]; exact Bool.noConfusion)]
  have hrow : settled (applyOptions power scope.options
      (resumeDecoder (configuredRetime retime live) scope.effective scope.mode sps)) =
        settled (scopeApply power (configuredRetime retime live) scope.mode scope.options 0) :=
    settled_resumeDecoder _ scope.effective scope.mode scope.options sps
  dsimp only
  split
  · exact (settled_of_settingsEqual _ _ ‹_›).trans hrow
  · exact hrow

/-- A store of one setting of the row's part, and the rows whose options stand over it. -/
structure RowStore (power : ℤ → ℚ) (store : ScanSettings → ScanSettings)
    (shadowed : OptionValues → Bool) : Prop where
  row : ∀ s src, copyRow s (store src) = store (copyRow s src)
  settled : ∀ s, settled (store s) = settled (store (settled s))
  hidden : ∀ v s, shadowed v = true →
    ChannelScan.settled (applyOptions power v (store s)) =
      ChannelScan.settled (applyOptions power v s)
  beside : ∀ v s, shadowed v = false →
    ChannelScan.settled (applyOptions power v (store s)) =
      ChannelScan.settled (store (applyOptions power v s))

theorem copyRow_self (s : ScanSettings) : copyRow s s = s := rfl

theorem applyDecoder_store {store : ScanSettings → ScanSettings}
    (hrow : ∀ s src, copyRow s (store src) = store (copyRow s src)) (conf : ScanSettings)
    (mode : Mode) (sps : ℤ) :
    applyDecoder (store conf) mode sps = store (applyDecoder conf mode sps) :=
  calc applyDecoder (store conf) mode sps
      = applyDecoder (copyRow conf (store conf)) mode sps := by rw [hrow, copyRow_self]
    _ = copyRow (applyDecoder conf mode sps) (store conf) := applyDecoder_copyRow _ _ _ _
    _ = store (applyDecoder conf mode sps) := by rw [hrow, copyRow_applyDecoder]

/-- The scope follows a change of one configured setting. -/
theorem inForce_setConfigured {store : ScanSettings → ScanSettings} {shadowed : OptionValues → Bool}
    (hstore : RowStore power store shadowed) {live : ScanSettings} (h : scope.InForce power live) :
    { scope with configured := store scope.configured }.InForce power
      (if shadowed scope.options then live else store live) := by
  have hdecoder := applyDecoder_store hstore.row scope.configured scope.mode 0
  change _ = settled (applyOptions power scope.options
    (applyDecoder (store scope.configured) scope.mode 0))
  rw [hdecoder]
  cases hs : shadowed scope.options with
  | true => exact h.trans (hstore.hidden _ _ hs).symm
  | false =>
    rw [hstore.beside _ _ hs]
    change settled (store live) = _
    rw [hstore.settled, h, ← hstore.settled]
    rfl

theorem settled_settled (s : ScanSettings) : settled (settled s) = settled s := by
  cases hm : isDynamic s.rtlSquelchMode with
  | true => simp [settled, hm]
  | false => simp [settled, hm]

theorem isDynamic_squelchLevel : isDynamic squelchLevel = false := rfl

theorem rowStore_squelch (setting : SquelchSetting) :
    RowStore power (squelchStore setting) fun v => v.has optSquelch where
  row s src := by
    rw [squelchStore, squelchStore]
    split
    · rfl
    · rfl
  settled s := by
    cases hm : isDynamic setting.mode with
    | true => simp [squelchStore, hm, ChannelScan.settled]
    | false => simp [squelchStore, hm, ChannelScan.settled, isDynamic_squelchLevel]
  hidden v s hv := by
    cases hm : isDynamic setting.mode <;> cases hd : isDynamic v.squelchMode <;>
      simp [squelchStore, hm, hd, hv, ChannelScan.settled, applyOptions,
        dynamicSquelch, levelSquelch, widthOf,
        isDynamic_squelchLevel]
  beside v s hv := by
    cases hm : isDynamic setting.mode <;>
      simp [squelchStore, hm, hv, ChannelScan.settled, applyOptions, dynamicSquelch,
        levelSquelch, widthOf]

theorem rowStore_width (am : Bool) (widthHz : ℤ) :
    RowStore power (widthStore am widthHz) fun v => v.widthOf am where
  row s src := by cases am <;> rfl
  settled s := by
    have hs : widthStore am widthHz (ChannelScan.settled s) =
        ChannelScan.settled (widthStore am widthHz s) := by
      cases am <;> rfl
    rw [hs, settled_settled]
  hidden v s hv := by cases am <;> simp [widthStore, hv, ChannelScan.settled, applyOptions]
  beside v s hv := by
    cases am <;> simp [widthStore, hv, ChannelScan.settled, applyOptions]

theorem rowStore_tone (filter : ℤ) (set : ToneSet) :
    RowStore power (fun s => { s with analogToneFilter := filter, analogToneSet := set })
      fun v => v.has optTone where
  row s src := rfl
  settled s := (settled_settled { s with analogToneFilter := filter, analogToneSet := set }).symm
  hidden v s hv := by simp [hv, ChannelScan.settled, applyOptions]
  beside v s hv := by simp [hv, ChannelScan.settled, applyOptions]

end DsdNeo.ChannelScan
